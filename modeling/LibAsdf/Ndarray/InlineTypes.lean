import LibAsdf.Ndarray.InlineElements

/-!
# The type that is inferred for inline arrays

* `cut`, `rect_visit`: the shape that the walk records for a rectangular tree, also
  where a sequence is too long to be counted;
* `walk_summary`: the walk takes notice of every scalar;
* `Materializes`: the data can be parsed, and holds the elements;
* `inline_elements`: the trees of integers, booleans and nulls for which it does.
-/

namespace LibAsdf

/-! ## The recorded shape -/

/-- The count of a sequence's items, as an `int`. -/
def itemCount (dim : UInt64) : Int := Int.bmod dim.toNat 4294967296

/-- The lengths that the walk records: none from a sequence on that counts as empty. -/
def cut : List UInt64 → List UInt64
  | [] => []
  | dim :: rest => if itemCount dim = 0 then [] else UInt64.ofNat (itemCount dim).toNat :: cut rest

section Shape

variable {env : ScalarEnv} {depth : Nat} {node : Node} {st st' : InlineShape} {ds : List UInt64}

theorem recordSize_shape {size : UInt64} (h : recordSize depth size st = .ok st') :
    (st.shape.length ≤ depth → st'.shape = st.shape ++ [size]) ∧
      (depth < st.shape.length → st'.shape = st.shape) ∧ st'.inf = st.inf := by
  unfold recordSize at h
  split at h
  case isTrue first =>
    cases h
    exact ⟨fun _ => rfl, fun later => by omega, rfl⟩
  case isFalse later =>
    split at h
    · cases h
    · cases h
      exact ⟨fun first => absurd first later, fun _ => rfl, rfl⟩

/-- What a visit leaves of the shape: at the first visit of its depth the lengths of
the tree are recorded, and later ones change nothing. -/
def Visited (ds : List UInt64) (depth : Nat) (st st' : InlineShape) : Prop :=
  (st.shape.length = depth → st'.shape = st.shape ++ cut ds) ∧
    (depth + (cut ds).length ≤ st.shape.length → st'.shape = st.shape)

theorem elements_visited {rest : List UInt64} {seq : Bool} {items : List Node}
    (rects : ∀ elem ∈ items, Rect rest elem)
    (visits : ∀ elem ∈ items, elem.isSequence = true → ∀ {st st'},
      inferInlineArrayDatatype env (depth + 1) elem st = .ok st' → Visited rest (depth + 1) st st')
    (h : inferElements env depth seq items st = .ok st') :
    (st.shape.length = depth + 1 → items ≠ [] → st'.shape = st.shape ++ cut rest) ∧
      (depth + 1 + (cut rest).length ≤ st.shape.length → st'.shape = st.shape) := by
  induction items generalizing st with
  | nil =>
    cases h
    exact ⟨fun _ none => absurd rfl none, fun _ => rfl⟩
  | cons elem others ih =>
    obtain ⟨-, st₁, later, here⟩ := inferElements_cons h
    obtain ⟨-, same⟩ := ih (fun elem' member => rects elem' (List.mem_cons_of_mem elem member))
      (fun elem' member => visits elem' (List.mem_cons_of_mem elem member)) later
    have first : Visited rest (depth + 1) st st₁ := by
      rcases here with ⟨inner, visit⟩ | ⟨scalar, kept⟩
      · exact visits elem List.mem_cons_self inner visit
      · have rect := rects elem List.mem_cons_self
        cases rest with
        | nil => exact ⟨fun _ => by rw [kept, cut, List.append_nil], fun _ => kept⟩
        | cons dim rest => exact absurd rect.1 (by rw [scalar]; nofun)
    constructor
    · intro length _
      have opened := first.1 length
      rw [same (by rw [opened, List.length_append, length]), opened]
    · intro length
      have kept := first.2 length
      rw [same (by rw [kept]; exact length), kept]

theorem rect_visit : ∀ {ds : List UInt64} {depth : Nat} {node : Node}, Rect ds node → ds ≠ [] →
    ∀ {st st' : InlineShape}, inferInlineArrayDatatype env depth node st = .ok st' →
      Visited ds depth st st' := by
  intro ds
  induction ds with
  | nil => exact fun _ none => absurd rfl none
  | cons dim rest ih =>
    intro depth node rect _ st st' h
    obtain ⟨seq, length, -, items⟩ := rect
    obtain ⟨-, -, visit⟩ := inferInlineArrayDatatype_ok h
    have count : sequenceSize node.items = itemCount dim :=
      congrArg (fun n : Nat => Int.bmod n 4294967296) length
    rw [count] at visit
    unfold Visited
    rcases visit with ⟨zero, rfl⟩ | ⟨pos, st₁, first, head, record, elements⟩
    · rw [cut, if_pos zero, List.append_nil]
      exact ⟨fun _ => rfl, fun _ => rfl⟩
    · have nonzero : ¬ itemCount dim = 0 := by omega
      have nonempty : node.items ≠ [] := by
        intro empty
        rw [empty] at head
        cases head
      rw [cut, if_neg nonzero, List.length_cons]
      obtain ⟨opened, kept, -⟩ := recordSize_shape record
      obtain ⟨opening, repeated⟩ := elements_visited items
        (fun elem member inner => ih (items elem member) (by
          rintro rfl
          have scalar : elem.isSequence = false := items elem member
          cases scalar.symm.trans inner)) elements
      constructor
      · intro length
        have shape := opened (by omega)
        rw [opening (by rw [shape, List.length_append, length]; rfl) nonempty, shape,
          List.append_assoc]
        rfl
      · intro length
        have shape := kept (by omega)
        rw [repeated (by rw [shape]; omega), shape]

theorem inferElements_scalar {seq : Bool} {elem : Node} {rest : List Node}
    (scalar : elem.isSequence = false)
    (h : inferElements env depth seq (elem :: rest) st = .ok st') :
    inferElements env depth seq rest { st with inf := updateTypeInference env elem st.inf } =
      .ok st' := by
  unfold inferElements at h
  split at h
  · cases h
  · rwa [if_neg (by rw [scalar]; exact Bool.false_ne_true)] at h

/-- What the walk has taken notice of, after the scalars of a tree. -/
def Walked (env : ScalarEnv) (leaves : List Node) (st st' : InlineShape) : Prop :=
  st'.inf = leaves.foldl (fun inf leaf => updateTypeInference env leaf inf) st.inf

theorem elements_walked {seq : Bool} {items : List Node}
    (visits : ∀ elem ∈ items, elem.isSequence = true → ∀ {st st'},
      inferInlineArrayDatatype env (depth + 1) elem st = .ok st' → Walked env elem.leaves st st')
    (h : inferElements env depth seq items st = .ok st') :
    Walked env (items.flatMap Node.leaves) st st' := by
  induction items generalizing st with
  | nil =>
    cases h
    rfl
  | cons elem others ih =>
    have later := fun elem' member => visits elem' (List.mem_cons_of_mem elem member)
    unfold Walked
    rw [List.flatMap_cons, List.foldl_append]
    cases scalar : elem.isSequence with
    | false =>
      rw [Node.leaves_scalar scalar]
      exact ih later (inferElements_scalar scalar h)
    | true =>
      obtain ⟨-, st₁, more, here⟩ := inferElements_cons h
      rcases here with ⟨inner, visit⟩ | ⟨none, -⟩
      · have first : Walked env elem.leaves st st₁ := visits elem List.mem_cons_self inner visit
        rw [← first]
        exact ih later more
      · cases scalar.symm.trans none

theorem walk_leaves_succ {d : Nat} (full : FullTo (d + 1) node)
    (visits : ∀ elem ∈ node.items, elem.isSequence = true → ∀ {st st'},
      inferInlineArrayDatatype env (depth + 1) elem st = .ok st' → Walked env elem.leaves st st')
    (h : inferInlineArrayDatatype env depth node st = .ok st') : Walked env node.leaves st st' := by
  obtain ⟨seq, nonempty, small, -⟩ := full
  obtain ⟨tag, items, rfl⟩ := isSequence_iff.mp seq
  obtain ⟨-, -, visit⟩ := inferInlineArrayDatatype_ok h
  change items.length < 2147483648 at small
  have pos : 0 < items.length := List.length_pos_iff.mpr nonempty
  change (sequenceSize items = 0 ∧ _ ∨ 0 < sequenceSize items ∧ _) at visit
  rw [sequenceSize_of_lt small] at visit
  obtain ⟨-, st₁, first, -, record, elements⟩ := visit.resolve_left fun empty => by omega
  obtain ⟨-, -, inf⟩ := recordSize_shape record
  have walked := elements_walked visits elements
  unfold Walked at walked ⊢
  rw [Node.leaves_sequence, walked, inf]
  rfl

theorem walk_leaves : ∀ (d : Nat) {depth : Nat} {node : Node} {st st' : InlineShape},
    FullTo (d + 1) node → inferInlineArrayDatatype env depth node st = .ok st' →
      Walked env node.leaves st st' := by
  intro d
  induction d with
  | zero =>
    intro depth node st st' full h
    refine walk_leaves_succ full (fun elem member inner => ?_) h
    have scalar : elem.isSequence = false := full.2.2.2 elem member
    cases scalar.symm.trans inner
  | succ d ih =>
    intro depth node st st' full h
    exact walk_leaves_succ full (fun elem member _ => ih (full.2.2.2 elem member)) h

/-- The type is inferred from all the elements. -/
theorem walk_summary {d : Nat} {es : List YamlElement} (full : FullTo (d + 1) node)
    (elements : List.Forall₂ IsElement node.leaves es)
    (h : inferInlineArrayDatatype env 0 node ⟨[], .start⟩ = .ok st) : Summary es st.inf := by
  have walked := walk_leaves d full h
  unfold Walked at walked
  rw [walked]
  exact summary_leaves elements summary_start

end Shape

/-! ## Sizes -/

section Sizes

variable {ds : List UInt64}

theorem itemCount_le (dim : UInt64) : itemCount dim ≤ dim.toNat := by
  unfold itemCount
  rw [Int.bmod_def]
  split <;> omega

theorem itemCount_lt (dim : UInt64) : itemCount dim < 2147483648 := by
  unfold itemCount
  rw [Int.bmod_def]
  split <;> omega

theorem extentsVolume_pos (pos : ∀ dim ∈ ds, 0 < dim.toNat) : 0 < extentsVolume ds := by
  induction ds with
  | nil => exact Nat.one_pos
  | cons dim rest ih =>
    have first := pos dim List.mem_cons_self
    exact Nat.mul_pos first (ih fun dim' member => pos dim' (List.mem_cons_of_mem dim member))

/-- The recorded lengths make no more room than the tree needs, and as much only if
every sequence is counted right. -/
theorem cut_volume (pos : ∀ dim ∈ ds, 0 < dim.toNat) : extentsVolume (cut ds) ≤ extentsVolume ds ∧
    (extentsVolume ds ≤ extentsVolume (cut ds) →
      cut ds = ds ∧ ∀ dim ∈ ds, dim.toNat < 2147483648) := by
  induction ds with
  | nil => exact ⟨Nat.le_refl _, fun _ => ⟨rfl, nofun⟩⟩
  | cons dim rest ih =>
    have later : ∀ dim' ∈ rest, 0 < dim'.toNat :=
      fun dim' member => pos dim' (List.mem_cons_of_mem dim member)
    have first := pos dim List.mem_cons_self
    have inner := extentsVolume_pos later
    have le := itemCount_le dim
    have small := itemCount_lt dim
    obtain ⟨below, exact_⟩ := ih later
    rw [cut]
    by_cases zero : itemCount dim = 0
    · rw [if_pos zero, extentsVolume, extentsVolume]
      have product := Nat.mul_pos first inner
      refine ⟨product, fun most => ?_⟩
      have one : dim.toNat = 1 := by
        have := Nat.le_mul_of_pos_right dim.toNat inner
        omega
      unfold itemCount at zero
      rw [one] at zero
      exact absurd zero (by decide)
    · have count : (UInt64.ofNat (itemCount dim).toNat).toNat = (itemCount dim).toNat := by
        rw [UInt64.toNat_ofNat']
        omega
      rw [if_neg zero, extentsVolume, extentsVolume, count]
      have counted : (itemCount dim).toNat ≤ dim.toNat := by omega
      refine ⟨Nat.mul_le_mul counted below, fun most => ?_⟩
      have same : (itemCount dim).toNat = dim.toNat := by
        by_contra differ
        have less : (itemCount dim).toNat < dim.toNat := by omega
        have step := Nat.mul_le_mul_left (itemCount dim).toNat below
        have strict := Nat.mul_lt_mul_of_pos_right less inner
        omega
      rw [same] at most
      obtain ⟨whole, short⟩ := exact_ (Nat.le_of_mul_le_mul_left most first)
      constructor
      · rw [same, UInt64.ofNat_toNat, whole]
      · intro dim' member
        rcases List.mem_cons.mp member with rfl | member
        · omega
        · exact short dim' member

variable {a : InlineNdarray}

theorem inlineNbytes_le (size : datatypeSize a.datatype = UInt64.ofNat a.datatype.type.size) :
    (inlineNbytes a).toNat ≤ extentsVolume a.shape * a.datatype.type.size := by
  have count : (inlineSize a).toNat ≤ extentsVolume a.shape := by
    unfold inlineSize
    split
    case isTrue => exact Nat.zero_le _
    case isFalse =>
      rw [foldl_mul_eq, UInt64.one_mul, UInt64.toNat_ofNat']
      exact Nat.mod_le _ _
  unfold inlineNbytes
  split
  case isTrue => exact Nat.zero_le _
  case isFalse =>
    rw [size, UInt64.toNat_mul, UInt64.toNat_ofNat']
    exact Nat.le_trans (Nat.mod_le _ _) (Nat.mul_le_mul count (Nat.mod_le _ _))

end Sizes

/-! ## The data -/

/-- The data of an array can be parsed into its buffer, which then holds the elements
one behind the other. -/
def Materializes (env : ElementEnv) (a : InlineNdarray) (es : List YamlElement) : Prop :=
  ∀ buf : Bytes, buf.length = (inlineNbytes a).toNat →
    ∃ st, parseInlineData env a buf = .ret (.ok, st) ∧ st.buf.length = buf.length ∧
      ∀ k e, es[k]? = some e → (k + 1) * a.datatype.type.size ≤ buf.length ∧
        ElementStored env.pf.host a.datatype.type e (elementAt st.buf 0 a.datatype.type.size k)

/-- What is read from the tree, where no datatype is given. -/
structure Inferred (env : ScalarEnv) (root : Node) (a : InlineNdarray) (st : InlineShape) :
    Prop where
  data : a.inlineData = root
  walk : inferInlineArrayDatatype env 0 root ⟨[], .start⟩ = .ok st
  shape : a.shape = st.shape
  type : a.datatype.type = inferScalarDatatype st.inf
  known : a.datatype.type ≠ .unknown
  size : datatypeSize a.datatype = UInt64.ofNat a.datatype.type.size

theorem convertible_of_inferred {inf : TypeInf} (known : inferScalarDatatype inf ≠ .unknown) :
    Convertible (inferScalarDatatype inf) := by
  by_cases string : inf.hasString = true
  · exact absurd (if_pos string) known
  · clear known
    unfold inferScalarDatatype
    rw [if_neg string]
    repeat' split
    all_goals first | exact .inl rfl | exact .inr rfl

theorem inferred_of_deserialize {env : ScalarEnv} {host : Byteorder} {map : Option Node}
    {root : Node} {a : InlineNdarray} (implicit : inlineProperties env map = .ok none)
    (h : deserializeInline env host map root = .ok a) : ∃ st, Inferred env root a st := by
  obtain ⟨explicit, properties, h⟩ := except_bind_ok.mp h
  cases implicit.symm.trans properties
  obtain ⟨st, walk, h⟩ := except_bind_ok.mp h
  obtain ⟨datatype, type, h⟩ := except_bind_ok.mp h
  cases h
  change implicitDatatype st.inf = .ok datatype at type
  unfold implicitDatatype at type
  dsimp only at type
  split at type
  case isTrue => cases type
  case isFalse known =>
    cases type
    exact ⟨st, rfl, walk, rfl, rfl, known,
      datatypeSize_eq (convertible_of_inferred known) rfl⟩

/-! ## Parses that fail -/

section Parses

variable {env : ElementEnv} {a : InlineNdarray} {depth : Nat} {ds : List UInt64}

/-- A sequence is not an element of any type. -/
theorem convert_sequence {elem : Node} (seq : elem.isSequence = true) (dtype : ScalarDatatype) :
    (convertScalarToNative env dtype elem).1 ≠ .ok := by
  obtain ⟨tag, items, rfl⟩ := isSequence_iff.mp seq
  cases dtype with
  | float16 =>
    unfold convertScalarToNative
    dsimp only
    split <;> nofun
  | _ => nofun

theorem parseElement_err {dtype : ScalarDatatype} {elem : Node} {st : InlineBuffer}
    {r : ValueErr × InlineBuffer} (h : parseElement env dtype elem st = .ret r) :
    r.1 = (convertScalarToNative env dtype elem).1 := by
  unfold parseElement at h
  cases convert : convertScalarToNative env dtype elem with
  | mk err native =>
    rw [convert] at h
    obtain ⟨buf, -, h⟩ := Outcome.bind_eq_ret.mp h
    by_cases ok : err = .ok
    · rw [if_pos ok] at h
      cases h
      exact ok.symm
    · rw [if_neg ok] at h
      cases h
      rfl

/-- The sequences that are taken for elements cannot be converted. -/
theorem shallow_fails : ∀ {ds : List UInt64} {depth : Nat} {node : Node}, Rect ds node →
    cut ds ≠ [] → (cut ds).length < ds.length → depth + (cut ds).length = a.shape.length →
      ∀ st st', parseInlineArrayLevel env a depth node st ≠ .ret (.ok, st') := by
  intro ds
  induction ds with
  | nil => exact fun _ none => absurd rfl none
  | cons dim rest ih =>
    intro depth node rect some_ short total st st' parse
    obtain ⟨seq, length, -, items⟩ := rect
    obtain ⟨tag, list, rfl⟩ := isSequence_iff.mp seq
    have nonzero : itemCount dim ≠ 0 := by
      intro zero
      rw [cut, if_pos zero] at some_
      exact some_ rfl
    rw [cut, if_neg nonzero, List.length_cons] at short total
    rw [List.length_cons] at short
    cases list with
    | nil =>
      have zero : dim = 0 := UInt64.toNat_inj.mp length.symm
      rw [zero] at nonzero
      exact nonzero (by decide)
    | cons first others =>
      obtain ⟨⟨err, st₁⟩, visit, later⟩ := Outcome.bind_eq_ret.mp parse
      have ok : err = .ok := by
        by_contra failed
        dsimp only at later
        rw [if_neg failed] at later
        cases later
        exact failed rfl
      subst ok
      have rect := items first List.mem_cons_self
      by_cases last : depth + 1 = a.shape.length
      · rw [if_pos last] at visit
        cases rest with
        | nil => exact absurd short (by rw [cut]; decide)
        | cons dim' rest => exact convert_sequence rect.1 _ (parseElement_err visit).symm
      · rw [if_neg last] at visit
        have deeper : cut rest ≠ [] := by
          intro none
          rw [none] at total
          exact last total
        exact ih rect deeper (by omega) (by omega) st st₁ visit

theorem cut_short (zero : (0 : UInt64) ∈ ds) : (cut ds).length < ds.length := by
  induction ds with
  | nil => cases zero
  | cons dim rest ih =>
    rw [cut, List.length_cons]
    split
    case isTrue => exact Nat.succ_pos _
    case isFalse nonzero =>
      rcases List.mem_cons.mp zero with rfl | zero
      · exact absurd (by decide) nonzero
      · exact Nat.succ_lt_succ (ih zero)

theorem zero_mem_iff : (0 : UInt64) ∈ ds ↔ extentsVolume ds = 0 := by
  induction ds with
  | nil => exact ⟨nofun, nofun⟩
  | cons dim rest ih =>
    have first : 0 = dim ↔ dim.toNat = 0 := by rw [eq_comm, ← UInt64.toNat_inj]; rfl
    rw [List.mem_cons, ih, extentsVolume, Nat.mul_eq_zero, first]

/-- Nothing is read where no shape was recorded. -/
theorem parse_unshaped (unshaped : a.shape = []) : ∀ (node : Node) (depth : Nat) (st : InlineBuffer),
    parseInlineArrayLevel env a depth node st = .ret (.ok, st) := by
  intro node
  induction node using Node.tree_induction with
  | step node ih =>
    intro depth st
    cases node with
    | scalar tag style text => rfl
    | mapping tag pairs => rfl
    | sequence tag items =>
      have each : ∀ elem ∈ items, parseInlineArrayLevel env a (depth + 1) elem st = .ret (.ok, st) :=
        fun elem member => ih elem member (depth + 1) st
      clear ih
      unfold parseInlineArrayLevel
      induction items with
      | nil => rfl
      | cons elem rest more =>
        have inner : depth + 1 ≠ a.shape.length := by
          rw [unshaped]
          exact Nat.succ_ne_zero depth
        rw [parseElements, if_neg inner, each elem List.mem_cons_self]
        exact more fun elem' member => each elem' (List.mem_cons_of_mem elem member)

theorem parseLeaves_ok {dtype : ScalarDatatype} {leaves : List Node} {st st' : InlineBuffer}
    {err : ValueErr} (converts : ∀ elem ∈ leaves, (convertScalarToNative env dtype elem).1 = .ok)
    (h : parseLeaves env dtype leaves st = .ret (err, st')) : err = .ok := by
  induction leaves generalizing st with
  | nil =>
    cases h
    rfl
  | cons elem rest ih =>
    obtain ⟨r, here, later⟩ := Outcome.bind_eq_ret.mp h
    have ok : r.1 = .ok := (parseElement_err here).trans (converts elem List.mem_cons_self)
    rw [if_pos ok] at later
    exact ih (fun elem' member => converts elem' (List.mem_cons_of_mem elem member)) later

end Parses

/-! ## What is inferred -/

section Elements

variable {env : ElementEnv} {a : InlineNdarray} {root : Node} {st : InlineShape} {ds : List UInt64}
  {es : List YamlElement}

theorem Inferred.convertible {env : ScalarEnv} (h : Inferred env root a st) :
    Convertible a.datatype.type := by
  have known := h.known
  rw [h.type] at known ⊢
  exact convertible_of_inferred known

theorem Inferred.cut_shape {env : ScalarEnv} (h : Inferred env root a st) (rect : Rect ds root) :
    a.shape = cut ds := by
  obtain ⟨seq, -⟩ := inferInlineArrayDatatype_ok h.walk
  have dims : ds ≠ [] := by
    rintro rfl
    have scalar : root.isSequence = false := rect
    cases seq.symm.trans scalar
  exact h.shape.trans ((rect_visit rect dims h.walk).1 rfl)

theorem element_at {leaves : List Node} (elements : List.Forall₂ IsElement leaves es) {k : Nat}
    {e : YamlElement} (found : es[k]? = some e) : ∃ leaf, leaves[k]? = some leaf ∧ IsElement leaf e := by
  induction elements generalizing k with
  | nil => cases found
  | cons first rest ih =>
    cases k with
    | zero =>
      cases found
      exact ⟨_, rfl, first⟩
    | succ k => exact ih found

/-- Uniform elements of a tree that is counted right are stored. -/
theorem Inferred.materializes (h : Inferred env.scalars root a st) (memory : InMemory root) {d : Nat}
    (full : FullTo d root) (elements : List.Forall₂ IsElement root.leaves es)
    (uniform : Uniform es) : Materializes env a es := by
  obtain ⟨seq, -⟩ := inferInlineArrayDatatype_ok h.walk
  cases d with
  | zero => cases seq.symm.trans full
  | succ d =>
    obtain ⟨ds, shape, count, rect⟩ := (visitFull d full _ _ h.walk).1 rfl
    have same : a.shape = ds := h.shape.trans shape
    rw [← same] at rect count
    have dims : a.shape ≠ [] := by
      intro empty
      rw [empty] at count
      cases count
    have summary := walk_summary full elements h.walk
    have volume := rect.length_leaves
    unfold InMemory at memory
    rw [volume] at memory
    have nbytes := inlineNbytes_toNat dims memory h.convertible h.size
    have zero : (0 : UInt64).toNat = 0 := rfl
    intro buf length
    have small := (inlineNbytes a).toNat_lt
    have room : HasRoom a.datatype.type root.leaves.length ⟨buf, 0⟩ := by
      intro _
      rw [zero, Nat.zero_add, volume, length, nbytes]
    obtain ⟨err, st', run, kept, wrote⟩ := @parseLeaves_wrote env _ _ _ room (by rwa [length])
    have stored : ∀ {leaf e}, e ∈ es → IsElement leaf e → ∃ bytes,
        convertScalarToNative env a.datatype.type leaf = (.ok, some bytes) ∧
          ElementStored env.pf.host a.datatype.type e bytes := by
      intro leaf e member is
      rw [h.type]
      exact stored_of_uniform summary uniform member is
    have ok : err = .ok := by
      apply parseLeaves_ok _ run
      intro leaf member
      obtain ⟨k, found⟩ := List.mem_iff_getElem?.mp member
      obtain ⟨lt, -⟩ := List.getElem?_eq_some_iff.mp found
      have within : k < es.length := by rwa [← elements.length_eq]
      obtain ⟨leaf', found', is⟩ := element_at elements (List.getElem?_eq_getElem within)
      cases found.symm.trans found'
      obtain ⟨bytes, convert, -⟩ := stored (List.getElem_mem within) is
      rw [convert]
    subst ok
    refine ⟨st', ?_, kept, ?_⟩
    · rw [parseInlineData, h.data, parseInlineArrayLevel_rect rect dims (Nat.zero_add _)]
      exact run
    · intro k e found
      obtain ⟨leaf, at_, is⟩ := element_at elements found
      obtain ⟨bytes, convert, element⟩ := stored (List.mem_of_getElem? found) is
      obtain ⟨bytes', convert', written⟩ := (wrote rfl).elem k leaf at_
      cases convert.symm.trans convert'
      obtain ⟨lt, -⟩ := List.getElem?_eq_some_iff.mp at_
      rw [zero, Nat.zero_add] at written
      rw [written]
      refine ⟨?_, element⟩
      rw [length, nbytes, ← volume]
      exact Nat.mul_le_mul_right _ lt

/-- A parse that does not fail, in a buffer of the array's size. -/
theorem Materializes.run (h : Materializes env a es) :
    ∃ buf st, parseInlineData env a buf = .ret (.ok, st) ∧ st.buf.length = (inlineNbytes a).toNat ∧
      ∀ k e, es[k]? = some e → (k + 1) * a.datatype.type.size ≤ (inlineNbytes a).toNat ∧
        ElementStored env.pf.host a.datatype.type e (elementAt st.buf 0 a.datatype.type.size k) := by
  have length : (List.replicate (inlineNbytes a).toNat (0 : UInt8)).length =
      (inlineNbytes a).toNat := List.length_replicate
  obtain ⟨st, run, kept, elements⟩ := h _ length
  rw [length] at kept elements
  exact ⟨_, st, run, kept, elements⟩

/-- What is materialized is empty, or uniform and counted right. -/
theorem Inferred.of_materializes (h : Inferred env.scalars root a st) (rect : Rect ds root)
    (elements : List.Forall₂ IsElement root.leaves es) (materializes : Materializes env a es) :
    (root.leaves = [] ∧ sequenceSize root.items = 0) ∨ (∃ d, FullTo d root) ∧ Uniform es := by
  have shape := h.cut_shape rect
  obtain ⟨buf, st', run, -, stored⟩ := materializes.run
  have volume := rect.length_leaves
  cases leaves : root.leaves with
  | nil =>
    left
    refine ⟨rfl, ?_⟩
    rw [leaves] at volume
    have short := cut_short (zero_mem_iff.mpr volume.symm)
    by_contra counted
    have some_ : cut ds ≠ [] := by
      cases ds with
      | nil => cases volume
      | cons dim rest =>
        obtain ⟨-, length, -⟩ := rect
        have count : sequenceSize root.items = itemCount dim :=
          congrArg (fun n : Nat => Int.bmod n 4294967296) length
        rw [cut, if_neg (by rwa [← count])]
        exact List.cons_ne_nil _ _
    have total : 0 + (cut ds).length = a.shape.length := by rw [shape, Nat.zero_add]
    rw [parseInlineData, h.data] at run
    exact shallow_fails rect some_ short total _ _ run
  | cons leaf others =>
    right
    have count : es.length = extentsVolume ds := by rw [← elements.length_eq, volume]
    have nonempty : 0 < es.length := by
      rw [← elements.length_eq, leaves]
      exact Nat.succ_pos _
    -- The last element is in the buffer, which is thus as large as the tree.
    obtain ⟨fits, -⟩ := stored (es.length - 1) _ (List.getElem?_eq_getElem (by omega))
    rw [Nat.sub_add_cancel nonempty, count] at fits
    have room := Nat.le_trans fits (inlineNbytes_le h.size)
    have whole := Nat.le_of_mul_le_mul_right room h.convertible.size.1
    rw [shape] at whole
    have pos : ∀ dim ∈ ds, 0 < dim.toNat := by
      intro dim member
      by_contra zero
      have eq : dim = 0 := UInt64.toNat_inj.mp (Nat.eq_zero_of_not_pos zero)
      have none := zero_mem_iff.mp (eq ▸ member)
      omega
    obtain ⟨-, small⟩ := (cut_volume pos).2 whole
    have full := rect.fullTo fun dim member => ⟨pos dim member, small dim member⟩
    refine ⟨⟨_, full⟩, ?_⟩
    obtain ⟨seq, -⟩ := inferInlineArrayDatatype_ok h.walk
    cases ds with
    | nil => cases seq.symm.trans full
    | cons dim rest =>
      apply @uniform_of_stored st.inf es env.pf.host (walk_summary full elements h.walk)
      intro e member
      obtain ⟨k, found⟩ := List.mem_iff_getElem?.mp member
      rw [← h.type]
      exact ⟨_, (stored k e found).2⟩

/-- Integers, booleans and nulls are stored as they are just if they are of one kind
and fit in 64 bits, in a tree that is counted right. -/
theorem inline_elements {map : Option Node}
    (accepted : deserializeInline env.scalars env.pf.host map root = .ok a)
    (implicit : inlineProperties env.scalars map = .ok none) (memory : InMemory root)
    (rect : Rect ds root) (elements : List.Forall₂ IsElement root.leaves es) :
    Materializes env a es ↔
      (root.leaves = [] ∧ sequenceSize root.items = 0) ∨ (∃ d, FullTo d root) ∧ Uniform es := by
  obtain ⟨st, inferred⟩ := inferred_of_deserialize implicit accepted
  constructor
  · exact inferred.of_materializes rect elements
  · rintro (⟨empty, count⟩ | ⟨⟨d, full⟩, uniform⟩)
    · have unshaped : a.shape = [] := by
        obtain ⟨-, -, visit⟩ := inferInlineArrayDatatype_ok inferred.walk
        obtain ⟨-, rfl⟩ := visit.resolve_right fun counted => by omega
        exact inferred.shape
      rw [empty] at elements
      cases elements
      intro buf length
      exact ⟨⟨buf, 0⟩, parse_unshaped unshaped _ _ _, rfl, nofun⟩
    · exact inferred.materializes memory full elements uniform

theorem unsigned_of_number {text : Bytes} {n : Nat} (leading : Leading text)
    (eq : number 10 text = n) : Unsigned text n := eq ▸ .decimal leading

theorem plainScalar_text (text : Bytes) (tag : CommonTag) :
    PlainScalar (.scalar none .plain text) tag := ⟨rfl, rfl, nofun⟩

theorem leading_digits {b : Byte} {rest : Bytes} (low : 49 ≤ b.toNat) (high : b.toNat ≤ 57)
    (digits : (b :: rest).all isDigit = true) : Leading (b :: rest) := by
  refine ⟨⟨b, rest, rfl, low, high⟩, fun c member => .inr ?_⟩
  exact List.all_eq_true.mp digits c member

theorem plainOne_element : IsElement plainOne (.int false 1) := by
  have leading : Leading [49] := leading_digits (by decide) (by decide) (by decide)
  exact .int (plainScalar_text _ _) (.bare (unsigned_of_number leading rfl))

/-- `[[1], [1]]` -/
theorem inline_elements_ones : ∃ a,
    deserializeInline plainScalars .little none columnOfOnes = .ok a ∧
      Materializes plainElements a [.int false 1, .int false 1] := by
  have accepted : deserializeInline plainElements.scalars plainElements.pf.host none columnOfOnes =
      .ok ⟨[2, 1], ⟨.uint8, 1, none, .default, [], []⟩, .little, columnOfOnes⟩ := rfl
  have memory : InMemory columnOfOnes := by
    unfold InMemory
    decide
  have rect : Rect [2, 1] columnOfOnes := by
    simp [Rect, columnOfOnes, Node.items, Node.isSequence, plainOne]
  have elements : List.Forall₂ IsElement columnOfOnes.leaves [.int false 1, .int false 1] :=
    .cons plainOne_element (.cons plainOne_element .nil)
  refine ⟨_, accepted, (inline_elements accepted rfl memory rect elements).mpr (.inr ⟨⟨2, ?_⟩, ?_⟩)⟩
  · refine ⟨rfl, List.cons_ne_nil _ _, by decide, ?_⟩
    simp [columnOfOnes, FullTo, Node.items, Node.isSequence, plainOne]
  · exact .inr (.inl (by simp))

/-- `[-1, 9223372036854775808]` -/
def mixedSigns : Node := .sequence none [.scalar none .plain [45, 49],
  .scalar none .plain [57, 50, 50, 51, 51, 55, 50, 48, 51, 54, 56, 53, 52, 55, 55, 53, 56, 48, 56]]

/-- They are taken for signed integers, which the second is too large for. -/
theorem mixedSigns_fails : ∃ a, deserializeInline plainScalars .little none mixedSigns = .ok a ∧
    InMemory mixedSigns ∧ Rect [2] mixedSigns ∧
      List.Forall₂ IsElement mixedSigns.leaves [.int true 1, .int false 9223372036854775808] ∧
      ¬ Materializes plainElements a [.int true 1, .int false 9223372036854775808] := by
  refine ⟨⟨[2], ⟨.int64, 8, none, .default, [], []⟩, .little, mixedSigns⟩, rfl, ?_, ?_, ?_, ?_⟩
  · unfold InMemory
    decide
  · simp [Rect, mixedSigns, Node.items, Node.isSequence]
  · have one : Leading [49] := leading_digits (by decide) (by decide) (by decide)
    have large : Leading [57, 50, 50, 51, 51, 55, 50, 48, 51, 54, 56, 53, 52, 55, 55, 53, 56, 48, 56] :=
      leading_digits (by decide) (by decide) (by decide)
    exact .cons (.int (plainScalar_text _ _) (.minus (unsigned_of_number one rfl)))
      (.cons (.int (plainScalar_text _ _) (.bare (unsigned_of_number large (by decide +kernel)))) .nil)
  · intro materializes
    obtain ⟨st, run, -⟩ := materializes (List.replicate 16 0) (by
      rw [inlineNbytes, datatypeSize_stored (by decide)]
      rfl)
    cases run

end Elements

end LibAsdf
