import LibAsdf.Ndarray.Inline
import LibAsdf.Ndarray.InlineParse

/-!
# The trees of inline arrays

* `Rect`, `FullTo`: rectangular trees, and those whose scalars are all at one
  depth under sequences that are not empty;
* `Rect.leaf`: the scalars of a rectangular tree are in row-major order;
* `inferInlineArrayDatatype_recorded`, `visitFull`: the shape that the walk
  records.
-/

namespace LibAsdf

/-! ## Trees -/

/-- The node at the indices `path`. -/
def Node.atPath : Node → List Nat → Option Node
  | node, [] => some node
  | node, idx :: path => node.items[idx]?.bind fun item => item.atPath path

/-- The scalars of a tree of sequences, in order. -/
def Node.leaves : Node → List Node
  | .sequence _ items => leavesOf items
  | node => [node]
where
  leavesOf : List Node → List Node
    | [] => []
    | item :: rest => item.leaves ++ leavesOf rest

/-- A tree of these dimensions. No sequence is empty unless all of its depth are,
so that there is no dimension behind one of length zero. -/
def Rect : List UInt64 → Node → Prop
  | [], node => node.isSequence = false
  | dim :: rest, node => node.isSequence = true ∧ node.items.length = dim.toNat ∧
      (dim = 0 → rest = []) ∧ ∀ item ∈ node.items, Rect rest item

/-- All scalars are at depth `d`, under sequences that are not empty and whose
size is an `int`. -/
def FullTo : Nat → Node → Prop
  | 0, node => node.isSequence = false
  | d + 1, node => node.isSequence = true ∧ node.items ≠ [] ∧ node.items.length < 2147483648 ∧
      ∀ item ∈ node.items, FullTo d item

theorem leavesOf_eq (items : List Node) : Node.leaves.leavesOf items = items.flatMap Node.leaves := by
  induction items with
  | nil => rfl
  | cons item rest ih => rw [Node.leaves.leavesOf, ih, List.flatMap_cons]

theorem Node.leaves_sequence (tag : Option Bytes) (items : List Node) :
    (Node.sequence tag items).leaves = items.flatMap Node.leaves := leavesOf_eq items

theorem Node.leaves_scalar {node : Node} (h : node.isSequence = false) : node.leaves = [node] := by
  cases node with
  | sequence tag items => cases h
  | scalar tag style text => rfl
  | mapping tag pairs => rfl

theorem Node.items_scalar {node : Node} (h : node.isSequence = false) : node.items = [] := by
  cases node with
  | sequence tag items => cases h
  | scalar tag style text => rfl
  | mapping tag pairs => rfl

/-- Elements of lists of one length, one behind the other. -/
theorem getElem?_flatMap_uniform {α β : Type} {f : α → List β} {n : Nat} {items : List α}
    (uniform : ∀ item ∈ items, (f item).length = n) (idx : Nat) {j : Nat} (lt : j < n) :
    (items.flatMap f)[idx * n + j]? = items[idx]?.bind fun item => (f item)[j]? := by
  induction items generalizing idx with
  | nil => rfl
  | cons item rest ih =>
    have first := uniform item List.mem_cons_self
    rw [List.flatMap_cons]
    cases idx with
    | zero =>
      rw [Nat.zero_mul, Nat.zero_add, List.getElem?_append_left (by omega)]
      rfl
    | succ idx =>
      rw [List.getElem?_append_right (by rw [Nat.succ_mul]; omega), first,
        List.getElem?_cons_succ, ← ih fun x mem => uniform x (List.mem_cons_of_mem item mem)]
      congr 1
      rw [Nat.succ_mul]
      omega

theorem isSequence_iff {node : Node} :
    node.isSequence = true ↔ ∃ tag items, node = .sequence tag items := by
  constructor
  · intro h
    cases node with
    | sequence tag items => exact ⟨tag, items, rfl⟩
    | scalar tag style text => cases h
    | mapping tag pairs => cases h
  · rintro ⟨tag, items, rfl⟩
    rfl

theorem Rect.length_leaves {ds : List UInt64} {node : Node} (h : Rect ds node) :
    node.leaves.length = extentsVolume ds := by
  induction ds generalizing node with
  | nil =>
    rw [Node.leaves_scalar h]
    rfl
  | cons dim rest ih =>
    obtain ⟨seq, length, -, items⟩ := h
    obtain ⟨tag, list, rfl⟩ := isSequence_iff.mp seq
    have uniform : ∀ item ∈ list, item.leaves.length = extentsVolume rest :=
      fun item mem => ih (items item mem)
    rw [Node.leaves_sequence, length_flatMap_of_length uniform]
    exact congrArg (· * extentsVolume rest) length

/-- A scalar's place among the scalars is its row-major position. -/
theorem Rect.leaf {ds : List UInt64} {node elem : Node} (h : Rect ds node) {path : List Nat}
    (found : node.atPath path = some elem) (scalar : elem.isSequence = false) :
    extentsPosition ds path < extentsVolume ds ∧ node.leaves[extentsPosition ds path]? = some elem := by
  induction ds generalizing node path with
  | nil =>
    cases path with
    | nil =>
      cases found
      rw [Node.leaves_scalar scalar]
      exact ⟨Nat.one_pos, rfl⟩
    | cons idx path =>
      rw [Node.atPath, Node.items_scalar h] at found
      cases found
  | cons dim rest ih =>
    obtain ⟨seq, length, -, items⟩ := h
    obtain ⟨tag, list, rfl⟩ := isSequence_iff.mp seq
    cases path with
    | nil =>
      cases found
      cases scalar
    | cons idx path =>
      obtain ⟨item, at_, found⟩ := Option.bind_eq_some_iff.mp found
      obtain ⟨small, leaf⟩ := ih (items item (List.mem_of_getElem? at_)) found
      obtain ⟨lt, -⟩ := List.getElem?_eq_some_iff.mp at_
      change idx < list.length at lt
      change list.length = dim.toNat at length
      rw [extentsPosition, extentsVolume]
      constructor
      · have le := Nat.mul_le_mul_right (extentsVolume rest) (Nat.succ_le_of_lt lt)
        rw [Nat.succ_mul, length] at le
        omega
      · have uniform : ∀ item ∈ list, item.leaves.length = extentsVolume rest :=
          fun item mem => (items item mem).length_leaves
        change list[idx]? = some item at at_
        rw [Node.leaves_sequence, getElem?_flatMap_uniform uniform idx small, at_]
        exact leaf

/-! ## The recorded shape -/

theorem except_bind_ok {ε α β : Type} {x : Except ε α} {f : α → Except ε β} {b : β} :
    (x >>= f) = .ok b ↔ ∃ a, x = .ok a ∧ f a = .ok b := by
  cases x with
  | error e => exact ⟨nofun, nofun⟩
  | ok a =>
    constructor
    · exact fun h => ⟨a, rfl, h⟩
    · rintro ⟨_, ⟨⟩, h⟩
      exact h

variable {env : ScalarEnv}

theorem sequenceSize_of_lt {items : List Node} (small : items.length < 2147483648) :
    sequenceSize items = items.length := by
  unfold sequenceSize
  rw [Int.bmod_def]
  split <;> omega

theorem sequenceSize_lt (items : List Node) : sequenceSize items < 2147483648 := by
  unfold sequenceSize
  rw [Int.bmod_def]
  split <;> omega

/-- What a visit of a sequence comes to: an empty one leaves no record. -/
theorem inferInlineArrayDatatype_ok {depth : Nat} {node : Node} {st st' : InlineShape}
    (h : inferInlineArrayDatatype env depth node st = .ok st') :
    node.isSequence = true ∧ 0 ≤ sequenceSize node.items ∧
      (sequenceSize node.items = 0 ∧ st' = st ∨
      0 < sequenceSize node.items ∧ ∃ st₁ first, node.items.head? = some first ∧
        recordSize depth (UInt64.ofNat (sequenceSize node.items).toNat) st = .ok st₁ ∧
        inferElements env depth first.isSequence node.items st₁ = .ok st') := by
  cases node with
  | scalar tag style text => cases h
  | mapping tag pairs => cases h
  | sequence tag items =>
    unfold inferInlineArrayDatatype at h
    dsimp only at h
    refine ⟨rfl, ?_⟩
    by_cases negative : sequenceSize items < 0
    · rw [if_pos negative] at h
      cases h
    · rw [if_neg negative] at h
      refine ⟨Int.not_lt.mp negative, ?_⟩
      by_cases zero : sequenceSize items = 0
      · rw [if_pos zero] at h
        cases h
        exact .inl ⟨zero, rfl⟩
      · rw [if_neg zero] at h
        obtain ⟨st₁, record, h⟩ := except_bind_ok.mp h
        right
        constructor
        · change 0 < sequenceSize items
          omega
        · cases head : items.head? with
          | none =>
            rw [head] at h
            cases h
          | some first =>
            rw [head] at h
            exact ⟨st₁, first, head, record, h⟩

theorem inferElements_cons {depth : Nat} {seq : Bool} {elem : Node} {rest : List Node}
    {st st' : InlineShape} (h : inferElements env depth seq (elem :: rest) st = .ok st') :
    elem.isSequence = seq ∧ ∃ st₁, inferElements env depth seq rest st₁ = .ok st' ∧
      (elem.isSequence = true ∧ inferInlineArrayDatatype env (depth + 1) elem st = .ok st₁ ∨
        elem.isSequence = false ∧ st₁.shape = st.shape) := by
  unfold inferElements at h
  by_cases mixed : elem.isSequence ≠ seq
  · rw [if_pos mixed] at h
    cases h
  · rw [if_neg mixed] at h
    refine ⟨not_not.mp mixed, ?_⟩
    by_cases inner : elem.isSequence = true
    · rw [if_pos inner] at h
      obtain ⟨st₁, visit, h⟩ := except_bind_ok.mp h
      exact ⟨st₁, h, .inl ⟨inner, visit⟩⟩
    · rw [if_neg inner] at h
      exact ⟨_, h, .inr ⟨Bool.eq_false_iff.mpr inner, rfl⟩⟩

/-- The lengths that are recorded: those of sequences that are not empty. -/
def Recorded (shape : List UInt64) : Prop := ∀ dim ∈ shape, 0 < dim.toNat ∧ dim.toNat < 2147483648

theorem recordSize_recorded {depth : Nat} {items : List Node} {st st' : InlineShape}
    (pos : 0 < sequenceSize items)
    (h : recordSize depth (UInt64.ofNat (sequenceSize items).toNat) st = .ok st')
    (recorded : Recorded st.shape) : Recorded st'.shape := by
  unfold recordSize at h
  split at h
  · cases h
    intro dim member
    rcases List.mem_append.mp member with old | new
    · exact recorded dim old
    · obtain rfl := List.mem_singleton.mp new
      have small := sequenceSize_lt items
      rw [UInt64.toNat_ofNat']
      omega
  · split at h
    · cases h
    · cases h
      exact recorded

/-- The loop over the elements keeps what their visits keep. -/
theorem inferElements_keeps {P : List UInt64 → Prop} {depth : Nat} {seq : Bool} {items : List Node}
    (each : ∀ elem ∈ items, ∀ {st st' : InlineShape},
      inferInlineArrayDatatype env (depth + 1) elem st = .ok st' → P st.shape → P st'.shape)
    {st st' : InlineShape} (h : inferElements env depth seq items st = .ok st') (start : P st.shape) :
    P st'.shape := by
  induction items generalizing st with
  | nil =>
    cases h
    exact start
  | cons elem rest ih =>
    obtain ⟨-, st₁, later, here⟩ := inferElements_cons h
    apply ih (fun elem' mem => each elem' (List.mem_cons_of_mem elem mem)) later
    rcases here with ⟨-, visit⟩ | ⟨-, same⟩
    · exact each elem List.mem_cons_self visit start
    · rwa [same]

theorem inferInlineArrayDatatype_recorded : ∀ (node : Node) {depth : Nat} {st st' : InlineShape},
    inferInlineArrayDatatype env depth node st = .ok st' → Recorded st.shape →
      Recorded st'.shape := by
  intro node
  induction node using Node.tree_induction with
  | step node ih =>
    intro depth st st' h recorded
    obtain ⟨seq, -, visit⟩ := inferInlineArrayDatatype_ok h
    rcases visit with ⟨-, rfl⟩ | ⟨pos, st₁, first, -, record, elements⟩
    · exact recorded
    · obtain ⟨tag, items, rfl⟩ := isSequence_iff.mp seq
      exact inferElements_keeps (fun elem mem => ih elem mem) elements
        (recordSize_recorded pos record recorded)

/-- A rectangular tree of recorded lengths. -/
theorem Rect.fullTo {ds : List UInt64} {node : Node} (h : Rect ds node) (recorded : Recorded ds) :
    FullTo ds.length node := by
  induction ds generalizing node with
  | nil => exact h
  | cons dim rest ih =>
    obtain ⟨seq, length, -, items⟩ := h
    obtain ⟨pos, small⟩ := recorded dim List.mem_cons_self
    refine ⟨seq, ?_, by rwa [length], ?_⟩
    · intro empty
      rw [empty, List.length_nil] at length
      omega
    · exact fun item mem => ih (items item mem) fun d mem => recorded d (List.mem_cons_of_mem dim mem)

/-- What the visit of a node at `depth` does, whose scalars are `d` levels below. -/
def VisitFull (env : ScalarEnv) (depth d : Nat) (node : Node) : Prop :=
  ∀ st st' : InlineShape, inferInlineArrayDatatype env depth node st = .ok st' →
    (st.shape.length = depth → ∃ ds, st'.shape = st.shape ++ ds ∧ ds.length = d ∧ Rect ds node) ∧
    (st.shape.length = depth + d → st'.shape = st.shape ∧ Rect (st.shape.drop depth) node)

/-- The elements of a sequence whose scalars are `d` levels below: the first one
records their dimensions, the others are checked against them. -/
theorem inferElements_full {d depth : Nat} {seq : Bool} {items : List Node}
    (each : ∀ elem ∈ items, FullTo d elem)
    (visits : ∀ elem ∈ items, elem.isSequence = true → VisitFull env (depth + 1) d elem)
    {st st' : InlineShape} (h : inferElements env depth seq items st = .ok st') :
    (st.shape.length = depth + 1 → items ≠ [] → ∃ ds, st'.shape = st.shape ++ ds ∧ ds.length = d ∧
      ∀ elem ∈ items, Rect ds elem) ∧
    (st.shape.length = depth + 1 + d → st'.shape = st.shape ∧
      ∀ elem ∈ items, Rect (st.shape.drop (depth + 1)) elem) := by
  induction items generalizing st with
  | nil =>
    cases h
    exact ⟨fun _ none => absurd rfl none, fun _ => ⟨rfl, nofun⟩⟩
  | cons elem rest ih =>
    obtain ⟨-, st₁, later, here⟩ := inferElements_cons h
    have full := each elem List.mem_cons_self
    obtain ⟨-, others⟩ := ih (fun elem' mem => each elem' (List.mem_cons_of_mem elem mem))
      (fun elem' mem => visits elem' (List.mem_cons_of_mem elem mem)) later
    -- the visit of the first element
    have first : (st.shape.length = depth + 1 → ∃ ds, st₁.shape = st.shape ++ ds ∧ ds.length = d ∧
          Rect ds elem) ∧
        (st.shape.length = depth + 1 + d → st₁.shape = st.shape ∧
          Rect (st.shape.drop (depth + 1)) elem) := by
      rcases here with ⟨inner, visit⟩ | ⟨scalar, same⟩
      · exact visits elem List.mem_cons_self inner _ _ visit
      · have zero : d = 0 := by
          cases d with
          | zero => rfl
          | succ d => exact absurd full.1 (by rw [scalar]; nofun)
        subst zero
        constructor
        · exact fun _ => ⟨[], by rw [same, List.append_nil], rfl, scalar⟩
        · intro length
          rw [List.drop_of_length_le (by omega)]
          exact ⟨same, scalar⟩
    constructor
    · intro length _
      obtain ⟨ds, shape, count, rect⟩ := first.1 length
      have drop : st₁.shape.drop (depth + 1) = ds := by
        rw [shape, ← length, List.drop_left]
      obtain ⟨same, rects⟩ := others (by rw [shape, List.length_append, length, count])
      refine ⟨ds, same.trans shape, count, fun elem' mem => ?_⟩
      rcases List.mem_cons.mp mem with rfl | mem
      · exact rect
      · rw [← drop]
        exact rects elem' mem
    · intro length
      obtain ⟨shape, rect⟩ := first.2 length
      obtain ⟨same, rects⟩ := others (by rw [shape, length])
      refine ⟨same.trans shape, fun elem' mem => ?_⟩
      rcases List.mem_cons.mp mem with rfl | mem
      · exact rect
      · rw [← shape]
        exact rects elem' mem

theorem rect_of_items {dim : UInt64} {rest : List UInt64} {node : Node}
    (seq : node.isSequence = true) (nonempty : node.items ≠ [])
    (length : node.items.length = dim.toNat) (items : ∀ item ∈ node.items, Rect rest item) :
    Rect (dim :: rest) node := by
  refine ⟨seq, length, fun zero => ?_, items⟩
  rw [zero] at length
  exact absurd (List.length_eq_zero_iff.mp length) nonempty

theorem visitFull_succ {d depth : Nat} {node : Node} (full : FullTo (d + 1) node)
    (visits : ∀ elem ∈ node.items, elem.isSequence = true → VisitFull env (depth + 1) d elem) :
    VisitFull env depth (d + 1) node := by
  intro st st' h
  obtain ⟨seq, nonempty, small, items⟩ := full
  obtain ⟨-, -, visit⟩ := inferInlineArrayDatatype_ok h
  have pos : 0 < node.items.length := List.length_pos_iff.mpr nonempty
  rw [sequenceSize_of_lt small] at visit
  obtain ⟨-, st₁, first, -, record, elements⟩ := visit.resolve_left fun empty => by omega
  rw [Int.toNat_natCast] at record
  have size : (UInt64.ofNat node.items.length).toNat = node.items.length := by
    rw [UInt64.toNat_ofNat']
    omega
  obtain ⟨opening, repeated⟩ := inferElements_full items visits elements
  unfold recordSize at record
  constructor
  · intro length
    rw [if_pos (by omega)] at record
    cases record
    obtain ⟨ds, shape, count, rects⟩ :=
      opening (by rw [List.length_append, length]; rfl) nonempty
    refine ⟨UInt64.ofNat node.items.length :: ds, ?_, by rw [List.length_cons, count], ?_⟩
    · rw [shape, List.append_assoc]
      rfl
    · exact rect_of_items seq nonempty size.symm rects
  · intro length
    rw [if_neg (by omega)] at record
    by_cases agrees : UInt64.ofNat node.items.length = st.shape.getD depth 0
    · rw [if_neg (not_not.mpr agrees)] at record
      cases record
      obtain ⟨same, rects⟩ := repeated (by omega)
      refine ⟨same, ?_⟩
      have lt : depth < st.shape.length := by omega
      have entry : st.shape[depth] = UInt64.ofNat node.items.length := by
        have same : st.shape.getD depth 0 = st.shape[depth] := by simp [List.getD, lt]
        rw [← same, agrees]
      rw [List.drop_eq_getElem_cons lt, entry]
      exact rect_of_items seq nonempty size.symm rects
    · rw [if_pos agrees] at record
      cases record

theorem visitFull : ∀ (d : Nat) {depth : Nat} {node : Node}, FullTo (d + 1) node →
    VisitFull env depth (d + 1) node := by
  intro d
  induction d with
  | zero =>
    intro depth node full
    apply visitFull_succ full
    intro elem mem seq
    have scalar : elem.isSequence = false := full.2.2.2 elem mem
    cases scalar.symm.trans seq
  | succ d ih =>
    intro depth node full
    apply visitFull_succ full
    intro elem mem _
    exact ih (full.2.2.2 elem mem)

end LibAsdf
