import LibAsdf.Stream.Basic

/-!
# YAML document trees

The nodes of a document as the YAML library hands them out, with aliases
resolved. Texts are the characters of a string, without the zero that ends it.

* `Node`: scalars, sequences and mappings with their tags;
* `Node.children`: what the container iterators go through;
* `Node.height`: how many levels there are;
* `Node.tree_induction`: induction over a node and its children.
-/

namespace LibAsdf

/-- `enum fy_node_style`, for scalars. -/
inductive ScalarStyle where
  | any
  | plain
  | singleQuoted
  | doubleQuoted
  | literal
  | folded
  deriving DecidableEq, Repr

/-- A YAML node. The tag is the explicit one, if there is one. -/
inductive Node where
  | scalar (tag : Option Bytes) (style : ScalarStyle) (text : Bytes)
  | sequence (tag : Option Bytes) (items : List Node)
  | mapping (tag : Option Bytes) (pairs : List (Node × Node))

namespace Node

/-- `asdf_value_is_container`, on the node of the value. -/
def isContainer : Node → Bool
  | scalar _ _ _ => false
  | sequence _ _ => true
  | mapping _ _ => true

/-- The nodes that the container iterators go through, in order: the items of
a sequence, the values of a mapping. -/
def children : Node → List Node
  | scalar _ _ _ => []
  | sequence _ items => items
  | mapping _ pairs => pairs.map Prod.snd

theorem sizeOf_lt_of_mem_children {n c : Node} (h : c ∈ n.children) : sizeOf c < sizeOf n := by
  cases n with
  | scalar tag style text => cases h
  | sequence tag items =>
    have lt : sizeOf c < sizeOf items := List.sizeOf_lt_of_mem h
    simp only [sequence.sizeOf_spec]
    omega
  | mapping tag pairs =>
    obtain ⟨⟨key, value⟩, mem, rfl⟩ := List.mem_map.mp h
    have lt : sizeOf (key, value) < sizeOf pairs := List.sizeOf_lt_of_mem mem
    simp only [mapping.sizeOf_spec, Prod.mk.sizeOf_spec] at lt ⊢
    omega

theorem tree_induction {P : Node → Prop} (step : ∀ n, (∀ c ∈ n.children, P c) → P n) :
    ∀ n, P n := by
  intro n
  induction size : sizeOf n using Nat.strongRecOn generalizing n with
  | ind size ih =>
    apply step
    intro c mem
    exact ih _ (size ▸ sizeOf_lt_of_mem_children mem) c rfl

/-- The number of levels of nodes, from this one down. -/
def height (n : Node) : Nat :=
  (n.children.attach.map fun child => height child.1).foldr max 0 + 1
termination_by sizeOf n
decreasing_by exact sizeOf_lt_of_mem_children child.2

theorem height_lt_of_mem_children {n c : Node} (h : c ∈ n.children) : c.height < n.height := by
  have least : ∀ (l : List Nat), ∀ k ∈ l, k ≤ l.foldr max 0 := by
    intro l
    induction l with
    | nil => simp
    | cons a l ih =>
      intro k mem
      simp only [List.foldr_cons]
      rcases List.mem_cons.mp mem with rfl | mem
      · omega
      · have := ih k mem
        omega
  rw [height.eq_1 n]
  apply Nat.lt_succ_of_le
  apply least
  exact List.mem_map.mpr ⟨⟨c, h⟩, List.mem_attach _ _, rfl⟩

theorem children_of_scalar {n : Node} (h : n.isContainer = false) : n.children = [] := by
  cases n with
  | scalar tag style text => rfl
  | sequence tag items => cases h
  | mapping tag pairs => cases h

end Node

end LibAsdf
