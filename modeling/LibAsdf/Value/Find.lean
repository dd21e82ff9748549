import LibAsdf.Base.Produce
import LibAsdf.Yaml.Node

/-!
# Searching a value tree

The find iterator of `value.c`: frames for the containers that are being
searched, the newest of which goes on in a depth-first search and the oldest in
a breadth-first one.

* `findIterStep`: one step of the iterator, on its frames;
* `Tested`: which nodes a search is to test;
* `preorder`, `levelOrder`: the two orders of these;
* `dfs_yields`, `bfs_yields`: the steps yield the nodes in that order;
* `find_iter_complete`: what the searches test and find.
-/

namespace LibAsdf

/-- A value of the tree: its node and where it stands below the root, which is
what tells it from an equal one. -/
structure TreeValue where
  node : Node
  position : List Nat

namespace TreeValue

def isContainer (v : TreeValue) : Bool := v.node.isContainer

def children (v : TreeValue) : List TreeValue :=
  v.node.children.mapIdx fun idx child => ⟨child, v.position ++ [idx]⟩

end TreeValue

/-- The parameters of a search; a predicate that is not given is a null pointer. -/
structure FindConfig where
  pred : Option (TreeValue → Bool)
  depthFirst : Bool
  descendPred : Option (TreeValue → Bool)
  maxDepth : Int

/-- `asdf_find_frame_t`; the container iterator is what it has still to give. -/
structure FindFrame where
  container : TreeValue
  ownsContainer : Bool
  visited : Bool
  isMapping : Bool
  depth : Int
  iter : List TreeValue

def FindFrame.init (container : TreeValue) (depth : Int) : FindFrame where
  container := container
  ownsContainer := false
  visited := false
  isMapping := match container.node with | .mapping _ _ => true | _ => false
  depth := depth
  iter := container.children

section Search

variable (cfg : FindConfig)

/-- `!descend_pred || descend_pred(container)`. -/
def FindConfig.descends (container : TreeValue) : Bool :=
  match cfg.descendPred with
  | none => true
  | some descendPred => descendPred container

/-- `!pred || pred(current)`. -/
def FindConfig.selects (current : TreeValue) : Bool :=
  match cfg.pred with
  | none => true
  | some pred => pred current

/-- `asdf_find_iter_push_frame`: the frame to push, unless it is refused. -/
def findIterPushFrame (frames : List FindFrame) (container : TreeValue) (depth : Int) :
    Option FindFrame :=
  if (cfg.maxDepth ≥ 0 ∧ depth > cfg.maxDepth) ∨
      (frames.length > 0 ∧ cfg.descends container = false) then none
  else some (FindFrame.init container depth)

/-- `asdf_find_iter_pop_frame`. -/
def findIterPopFrame (frames : List FindFrame) (idx : Nat) : List FindFrame :=
  frames.eraseIdx idx

/-- `asdf_find_iter_next_dfs`, on the frames below the last one and that one. -/
def findIterNextDfs (below : List FindFrame) (frame : FindFrame) :
    List FindFrame × Option TreeValue :=
  if frame.visited = false then
    (below ++ [{ frame with visited := true }], some frame.container)
  else
    match frame.iter with
    | [] => (findIterPopFrame (below ++ [frame]) below.length, none)
    | child :: iter =>
      let frames := below ++ [{ frame with iter := iter }]
      if child.isContainer then
        match findIterPushFrame cfg frames child (frame.depth + 1) with
        | some new => (frames ++ [new], none)
        | none => (frames, none)
      else (frames, some child)

/-- `asdf_find_iter_next_bfs`, on the first frame and those after it. -/
def findIterNextBfs (frame : FindFrame) (above : List FindFrame) :
    List FindFrame × Option TreeValue :=
  if frame.visited = false then
    ({ frame with visited := true } :: above, some frame.container)
  else
    match frame.iter with
    | [] => (findIterPopFrame (frame :: above) 0, none)
    | child :: iter =>
      let frames := { frame with iter := iter } :: above
      if child.isContainer then
        match findIterPushFrame cfg frames child (frame.depth + 1) with
        | some new => (frames ++ [{ new with visited := true, ownsContainer := true }], some child)
        | none => (frames, none)
      else (frames, some child)

/-- `asdf_find_iter_step`; without frames there is nothing to step. -/
def findIterStep (frames : List FindFrame) : Option (List FindFrame × Option TreeValue) :=
  if cfg.depthFirst then
    match frames.getLast? with
    | none => none
    | some frame => some (findIterNextDfs cfg frames.dropLast frame)
  else
    match frames with
    | [] => none
    | frame :: above => some (findIterNextBfs cfg frame above)

/-- `asdf_find_iter_init_ex`: the frames of a new iterator. -/
def findIterInit (root : TreeValue) : Option (List FindFrame) :=
  if root.isContainer then some (findIterPushFrame cfg [] root 0).toList else none

/-- `asdf_value_find_iter_next`: the values that are put to the predicate, the
one that is found, and the frames left. -/
def findIterNext (fuel : Nat) (frames : List FindFrame) :
    Run (List TreeValue × Option TreeValue × List FindFrame) :=
  Outcome.search (findIterStep cfg) cfg.selects fuel frames

/-- Calls of `asdf_value_find_iter_next` until it says that there is nothing
more: the values tested and the values found. -/
def findIterAll (fuel : Nat) (frames : List FindFrame) : Run (List TreeValue × List TreeValue) :=
  Outcome.drain (findIterStep cfg) cfg.selects fuel frames

/-! ## What a search is to test -/

def FindConfig.within (depth : Int) : Prop := cfg.maxDepth < 0 ∨ depth ≤ cfg.maxDepth

instance (depth : Int) : Decidable (cfg.within depth) := inferInstanceAs (Decidable (_ ∨ _))

/-- The nodes to test, with their depths. -/
inductive Tested (root : TreeValue) : Nat → TreeValue → Prop
  | root : Tested root 0 root
  | scalar {depth v child} (parent : Tested root depth v) (mem : child ∈ v.children)
      (leaf : child.isContainer = false) : Tested root (depth + 1) child
  | container {depth v child} (parent : Tested root depth v) (mem : child ∈ v.children)
      (container : child.isContainer = true) (descends : cfg.descends child = true)
      (within : cfg.within ((depth + 1 : Nat) : Int)) : Tested root (depth + 1) child

/-- A child at this depth is searched: it is a scalar, or a container that the
search descends into. -/
def FindConfig.admits (depth : Nat) (child : TreeValue) : Bool :=
  !child.isContainer || (cfg.descends child && decide (cfg.within (depth : Int)))

/-- The children that are tested of a container at this depth. -/
def admitted (depth : Nat) (v : TreeValue) : List TreeValue :=
  v.children.filter (cfg.admits (depth + 1))

end Search

theorem TreeValue.sizeOf_lt {v child : TreeValue} (mem : child ∈ v.children) :
    sizeOf child.node < sizeOf v.node := by
  obtain ⟨idx, lt, eq⟩ := List.mem_mapIdx.mp mem
  rw [← eq]
  exact Node.sizeOf_lt_of_mem_children (List.getElem_mem lt)

theorem mem_admitted {cfg : FindConfig} {depth : Nat} {v child : TreeValue} :
    child ∈ admitted cfg depth v ↔ child ∈ v.children ∧ cfg.admits (depth + 1) child = true :=
  List.mem_filter

/-- A node, then its children in order, each with all that is below it. -/
def preorder (cfg : FindConfig) (depth : Nat) (v : TreeValue) : List TreeValue :=
  v :: (admitted cfg depth v).attach.flatMap fun child => preorder cfg (depth + 1) child.1
termination_by sizeOf v.node
decreasing_by exact TreeValue.sizeOf_lt (mem_admitted.mp child.2).1

/-- The nodes at a depth below the root, in order. -/
def level (cfg : FindConfig) (root : TreeValue) : Nat → List TreeValue
  | 0 => [root]
  | depth + 1 => (level cfg root depth).flatMap (admitted cfg depth)

/-- The nodes of each level, in order. -/
def levelOrder (cfg : FindConfig) (root : TreeValue) : List TreeValue :=
  (List.range root.node.height).flatMap (level cfg root)

section Orders

variable {cfg : FindConfig} {depth : Nat} {v root : TreeValue}

theorem preorder_eq (cfg : FindConfig) (depth : Nat) (v : TreeValue) :
    preorder cfg depth v = v :: (admitted cfg depth v).flatMap (preorder cfg (depth + 1)) := by
  have unattached := List.flatMap_map (f := Subtype.val) (g := preorder cfg (depth + 1))
    (l := (admitted cfg depth v).attach)
  rw [List.attach_map_subtype_val] at unattached
  rw [preorder, unattached]

theorem children_of_leaf (leaf : v.isContainer = false) : v.children = [] := by
  unfold TreeValue.children
  rw [Node.children_of_scalar leaf]
  rfl

theorem admitted_of_leaf (leaf : v.isContainer = false) : admitted cfg depth v = [] := by
  unfold admitted
  rw [children_of_leaf leaf]
  rfl

theorem preorder_of_leaf (leaf : v.isContainer = false) : preorder cfg depth v = [v] := by
  rw [preorder_eq, admitted_of_leaf leaf]
  rfl

/-! ## Depth first -/

theorem pushFrame_eq {frames : List FindFrame} (cfg : FindConfig) (nonempty : frames ≠ [])
    (child : TreeValue) (depth : Nat) :
    findIterPushFrame cfg frames child (depth : Int) =
      if cfg.descends child = true ∧ cfg.within (depth : Int) then
        some (FindFrame.init child (depth : Int)) else none := by
  have some_frames : 0 < frames.length := List.length_pos_iff.mpr nonempty
  unfold findIterPushFrame FindConfig.within
  cases cfg.descends child with
  | true =>
    by_cases deep : cfg.maxDepth ≥ 0 ∧ (depth : Int) > cfg.maxDepth
    · rw [if_pos (.inl deep), if_neg]
      rintro ⟨-, within⟩
      omega
    · rw [if_neg (by simp [deep]), if_pos]
      exact ⟨rfl, by omega⟩
  | false => rw [if_pos (.inr ⟨some_frames, rfl⟩), if_neg (by simp)]

theorem dfs_step {below : List FindFrame} (dfs : cfg.depthFirst = true) (frame : FindFrame) :
    findIterStep cfg (below ++ [frame]) = some (findIterNextDfs cfg below frame) := by
  simp [findIterStep, dfs]

theorem nextDfs_child {below : List FindFrame} {frame : FindFrame} {child : TreeValue}
    {iter : List TreeValue} (visited : frame.visited = true) (children : frame.iter = child :: iter)
    (at_depth : frame.depth = (depth : Int)) :
    findIterNextDfs cfg below frame =
      if child.isContainer = true then
        if cfg.descends child = true ∧ cfg.within ((depth + 1 : Nat) : Int) then
          (below ++ [{ frame with iter := iter }] ++
            [FindFrame.init child ((depth + 1 : Nat) : Int)], none)
        else (below ++ [{ frame with iter := iter }], none)
      else (below ++ [{ frame with iter := iter }], some child) := by
  have deeper : frame.depth + 1 = ((depth + 1 : Nat) : Int) := by
    rw [at_depth, Int.natCast_succ]
  have nonempty : below ++ [{ frame with iter := iter }] ≠ [] := by simp
  unfold findIterNextDfs
  rw [if_neg (by simp [visited]), children]
  simp only [deeper, pushFrame_eq cfg nonempty]
  split
  · by_cases ok : cfg.descends child = true ∧ cfg.within ((depth + 1 : Nat) : Int)
    · simp only [if_pos ok]
    · simp only [if_neg ok]
  · rfl

theorem admits_of_leaf (leaf : v.isContainer = false) : cfg.admits depth v = true := by
  simp [FindConfig.admits, leaf]

theorem admits_container (container : v.isContainer = true) :
    cfg.admits depth v = true ↔ cfg.descends v = true ∧ cfg.within (depth : Int) := by
  simp [FindConfig.admits, container]

/-- What is left of a container in the middle of a depth-first search: the
admitted ones of its remaining children, each with all that is below it. -/
theorem dfs_children (frame : FindFrame) {below : List FindFrame} {l : List TreeValue}
    (dfs : cfg.depthFirst = true) (visited : frame.visited = true)
    (at_depth : frame.depth = (depth : Int))
    (search : ∀ child ∈ frame.iter, ∀ (below : List FindFrame) (l : List TreeValue),
      Outcome.Yields (findIterStep cfg) below l →
      Outcome.Yields (findIterStep cfg)
        (below ++ [FindFrame.init child ((depth + 1 : Nat) : Int)])
        (preorder cfg (depth + 1) child ++ l))
    (rest : Outcome.Yields (findIterStep cfg) below l) :
    Outcome.Yields (findIterStep cfg) (below ++ [frame])
      ((frame.iter.filter (cfg.admits (depth + 1))).flatMap (preorder cfg (depth + 1)) ++ l) := by
  induction children : frame.iter generalizing frame with
  | nil =>
    apply Outcome.Yields.silent _ rest
    rw [dfs_step dfs]
    simp [findIterNextDfs, visited, children, findIterPopFrame, List.eraseIdx_append_of_length_le]
  | cons child iter ih =>
    have next := ih { frame with iter := iter } visited at_depth
      (fun c mem => search c (by rw [children]; exact List.mem_cons_of_mem _ mem)) rfl
    have step := @nextDfs_child cfg depth below frame child iter visited children at_depth
    cases container : child.isContainer with
    | false =>
      rw [List.filter_cons_of_pos (admits_of_leaf container), List.flatMap_cons,
        preorder_of_leaf container]
      apply Outcome.Yields.value _ next
      rw [dfs_step dfs, step, if_neg (by simp [container])]
    | true =>
      rw [if_pos container] at step
      by_cases ok : cfg.descends child = true ∧ cfg.within ((depth + 1 : Nat) : Int)
      · rw [List.filter_cons_of_pos ((admits_container container).mpr ok), List.flatMap_cons,
          List.append_assoc]
        apply Outcome.Yields.silent _ (search child (by simp [children]) _ _ next)
        rw [dfs_step dfs, step, if_pos ok]
      · rw [List.filter_cons_of_neg (by rwa [admits_container container])]
        apply Outcome.Yields.silent _ next
        rw [dfs_step dfs, step, if_neg ok]

/-- A frame that is not visited yet yields its container and all that is below
it, then what the frames under it yield. -/
theorem dfs_frame (dfs : cfg.depthFirst = true) (v : TreeValue) :
    ∀ (depth : Nat) (below : List FindFrame) (l : List TreeValue),
      Outcome.Yields (findIterStep cfg) below l →
      Outcome.Yields (findIterStep cfg) (below ++ [FindFrame.init v (depth : Int)])
        (preorder cfg depth v ++ l) := by
  induction size : sizeOf v.node using Nat.strongRecOn generalizing v with
  | ind size ih =>
    intro depth below l rest
    rw [preorder_eq, List.cons_append]
    have below_it := dfs_children { FindFrame.init v (depth : Int) with visited := true }
      dfs rfl rfl (fun child mem =>
        ih _ (size ▸ TreeValue.sizeOf_lt mem) child rfl (depth + 1)) rest
    apply Outcome.Yields.value _ below_it
    rw [dfs_step dfs]
    rfl

theorem dfs_yields (dfs : cfg.depthFirst = true) (root : TreeValue) :
    Outcome.Yields (findIterStep cfg) [FindFrame.init root 0] (preorder cfg 0 root) := by
  have none_left : Outcome.Yields (findIterStep cfg) [] [] := by
    apply Outcome.Yields.exhausted
    simp [findIterStep]
  have all := dfs_frame dfs root 0 [] [] none_left
  rw [List.append_nil] at all
  exact all

/-! ## Breadth first -/

/-- The frame of a container that is in the queue: it has been tested. -/
def FindFrame.queued (v : TreeValue) (depth : Nat) : FindFrame :=
  { FindFrame.init v (depth : Int) with visited := true, ownsContainer := true }

/-- The frames that a list of tested nodes of one depth leaves in the queue. -/
def queue (depth : Nat) (nodes : List TreeValue) : List FindFrame :=
  (nodes.filter TreeValue.isContainer).map fun v => FindFrame.queued v depth

theorem bfs_step {above : List FindFrame} (bfs : cfg.depthFirst = false) (frame : FindFrame) :
    findIterStep cfg (frame :: above) = some (findIterNextBfs cfg frame above) := by
  simp [findIterStep, bfs]

theorem nextBfs_child {above : List FindFrame} {frame : FindFrame} {child : TreeValue}
    {iter : List TreeValue} (visited : frame.visited = true) (children : frame.iter = child :: iter)
    (at_depth : frame.depth = (depth : Int)) :
    findIterNextBfs cfg frame above =
      if cfg.admits (depth + 1) child = true then
        ({ frame with iter := iter } :: (above ++ queue (depth + 1) [child]), some child)
      else ({ frame with iter := iter } :: above, none) := by
  have deeper : frame.depth + 1 = ((depth + 1 : Nat) : Int) := by
    rw [at_depth, Int.natCast_succ]
  have nonempty : { frame with iter := iter } :: above ≠ [] := by simp
  unfold findIterNextBfs
  rw [if_neg (by simp [visited]), children]
  simp only [deeper, pushFrame_eq cfg nonempty]
  cases container : child.isContainer with
  | false => simp [admits_of_leaf container, queue, container]
  | true =>
    rw [if_pos rfl]
    by_cases ok : cfg.descends child = true ∧ cfg.within ((depth + 1 : Nat) : Int)
    · rw [if_pos ((admits_container container).mpr ok)]
      simp only [if_pos ok, queue, List.filter_cons, container, ↓reduceIte, List.filter_nil]
      rfl
    · have refused : ¬ cfg.admits (depth + 1) child = true := by rwa [admits_container container]
      simp only [if_neg ok, if_neg refused]

/-- The first frame yields its admitted children, and leaves their frames at the
end of the queue. -/
theorem bfs_children (frame : FindFrame) {above : List FindFrame} {l : List TreeValue}
    (bfs : cfg.depthFirst = false) (visited : frame.visited = true)
    (at_depth : frame.depth = (depth : Int))
    (rest : Outcome.Yields (findIterStep cfg)
      (above ++ queue (depth + 1) (frame.iter.filter (cfg.admits (depth + 1)))) l) :
    Outcome.Yields (findIterStep cfg) (frame :: above)
      (frame.iter.filter (cfg.admits (depth + 1)) ++ l) := by
  induction children : frame.iter generalizing frame above with
  | nil =>
    rw [children] at rest
    apply Outcome.Yields.silent _ (by simpa [queue] using rest)
    rw [bfs_step bfs]
    simp [findIterNextBfs, visited, children, findIterPopFrame]
  | cons child iter ih =>
    rw [children] at rest
    have step := @nextBfs_child cfg depth above frame child iter visited children at_depth
    by_cases admits : cfg.admits (depth + 1) child = true
    · rw [List.filter_cons_of_pos admits] at rest ⊢
      rw [if_pos admits] at step
      apply Outcome.Yields.value
      · rw [bfs_step bfs, step]
      · apply ih { frame with iter := iter } visited at_depth _ rfl
        have split : queue (depth + 1) (child :: iter.filter (cfg.admits (depth + 1))) =
            queue (depth + 1) [child] ++ queue (depth + 1) (iter.filter (cfg.admits (depth + 1))) := by
          rw [queue, queue, queue, ← List.map_append, ← List.filter_append]
          rfl
        rw [List.append_assoc, ← split]
        exact rest
    · rw [List.filter_cons_of_neg admits] at rest ⊢
      rw [if_neg admits] at step
      apply Outcome.Yields.silent
      · rw [bfs_step bfs, step]
      · exact ih { frame with iter := iter } visited at_depth rest rfl

theorem queue_append (depth : Nat) (a b : List TreeValue) :
    queue depth (a ++ b) = queue depth a ++ queue depth b := by
  simp [queue]

/-- The queued frames of one depth yield the admitted children of their
containers, and leave the frames of these at the end of the queue. -/
theorem bfs_queue {nodes : List TreeValue} {above : List FindFrame} {l : List TreeValue}
    (bfs : cfg.depthFirst = false)
    (rest : Outcome.Yields (findIterStep cfg)
      (above ++ queue (depth + 1) (nodes.flatMap (admitted cfg depth))) l) :
    Outcome.Yields (findIterStep cfg) (queue depth nodes ++ above)
      (nodes.flatMap (admitted cfg depth) ++ l) := by
  induction nodes generalizing above with
  | nil => simpa [queue] using rest
  | cons v nodes ih =>
    rw [List.flatMap_cons] at rest ⊢
    cases container : v.isContainer with
    | false =>
      rw [admitted_of_leaf container, List.nil_append] at rest ⊢
      have skip : queue depth (v :: nodes) = queue depth nodes := by simp [queue, container]
      rw [skip]
      exact ih rest
    | true =>
      have first : queue depth (v :: nodes) = FindFrame.queued v depth :: queue depth nodes := by
        simp [queue, container]
      rw [first, List.append_assoc, List.cons_append]
      apply bfs_children _ bfs rfl rfl
      rw [queue_append, ← List.append_assoc] at rest
      rw [List.append_assoc]
      exact ih rest

theorem bfs_levels (bfs : cfg.depthFirst = false) (root : TreeValue) (n : Nat) :
    ∀ depth, level cfg root (depth + 1 + n) = [] →
      Outcome.Yields (findIterStep cfg) (queue depth (level cfg root depth))
        ((List.range' (depth + 1) n).flatMap (level cfg root)) := by
  induction n with
  | zero =>
    intro depth last
    have none_left : Outcome.Yields (findIterStep cfg)
        ([] ++ queue (depth + 1) (level cfg root (depth + 1))) [] := by
      rw [← Nat.add_zero (depth + 1), last]
      apply Outcome.Yields.exhausted
      simp [findIterStep, bfs, queue]
    have all := bfs_queue bfs none_left
    rw [List.append_nil, List.append_nil] at all
    rw [← Nat.add_zero (depth + 1), level] at last
    rw [last] at all
    exact all
  | succ n ih =>
    intro depth last
    have next := ih (depth + 1) (by rw [← last]; congr 1; omega)
    have all := @bfs_queue cfg depth (level cfg root depth) [] _ bfs next
    rw [List.append_nil] at all
    exact all

/-- A node lies as many levels above the lowest one as its height says. -/
theorem height_of_mem_level {depth : Nat} {v : TreeValue} (mem : v ∈ level cfg root depth) :
    depth + v.node.height ≤ root.node.height := by
  induction depth generalizing v with
  | zero =>
    cases List.mem_singleton.mp mem
    omega
  | succ depth ih =>
    obtain ⟨parent, above, child⟩ := List.mem_flatMap.mp mem
    obtain ⟨idx, lt, rfl⟩ := List.mem_mapIdx.mp (mem_admitted.mp child).1
    have lower := Node.height_lt_of_mem_children (List.getElem_mem lt)
    have := ih above
    simp only
    omega

theorem height_pos (n : Node) : 0 < n.height := by
  rw [Node.height]
  omega

theorem level_height (cfg : FindConfig) (root : TreeValue) :
    level cfg root root.node.height = [] := by
  apply List.eq_nil_iff_forall_not_mem.mpr
  intro v mem
  have bound := height_of_mem_level mem
  have positive := height_pos v.node
  omega

theorem bfs_yields (bfs : cfg.depthFirst = false) (root : TreeValue) :
    Outcome.Yields (findIterStep cfg) [FindFrame.init root 0] (levelOrder cfg root) := by
  obtain ⟨n, height⟩ : ∃ n, root.node.height = n + 1 :=
    Nat.exists_eq_succ_of_ne_zero (Nat.pos_iff_ne_zero.mp (height_pos root.node))
  have last := level_height cfg root
  rw [height] at last
  have first : level cfg root 1 = admitted cfg 0 root := List.flatMap_singleton _ _
  have order : levelOrder cfg root =
      root :: (admitted cfg 0 root ++ (List.range' 2 n).flatMap (level cfg root)) := by
    have longer : levelOrder cfg root = (List.range (n + 2)).flatMap (level cfg root) := by
      rw [List.range_succ, List.flatMap_append, List.flatMap_singleton, last, List.append_nil,
        levelOrder, height]
    rw [longer, List.range_eq_range', List.range'_succ, List.range'_succ, List.flatMap_cons,
      List.flatMap_cons, Nat.zero_add, first]
    rfl
  have beyond : level cfg root (1 + 1 + n) = [] := by
    rw [Nat.add_right_comm, Nat.add_comm 1 n, level, last]
    rfl
  have lower := bfs_levels bfs root n 1 beyond
  rw [first] at lower
  rw [order]
  -- The frame of the root is unlike those in the queue: it is not tested when it is pushed.
  apply Outcome.Yields.value
  · rw [bfs_step bfs]
    rfl
  · exact bfs_children { FindFrame.init root ((0 : Nat) : Int) with visited := true } bfs rfl rfl lower

/-! ## The nodes of the two orders -/

theorem mem_level {depth : Nat} {v : TreeValue} :
    v ∈ level cfg root depth ↔ Tested cfg root depth v := by
  constructor
  · intro mem
    induction depth generalizing v with
    | zero =>
      cases List.mem_singleton.mp mem
      exact .root
    | succ depth ih =>
      obtain ⟨parent, above, child⟩ := List.mem_flatMap.mp mem
      obtain ⟨child, admits⟩ := mem_admitted.mp child
      cases container : v.isContainer with
      | false => exact .scalar (ih above) child container
      | true =>
        obtain ⟨descends, within⟩ := (admits_container container).mp admits
        exact .container (ih above) child container descends within
  · intro tested
    induction tested with
    | root => exact List.mem_singleton_self _
    | scalar _ mem leaf ih =>
      exact List.mem_flatMap.mpr ⟨_, ih, mem_admitted.mpr ⟨mem, admits_of_leaf leaf⟩⟩
    | container _ mem container descends within ih =>
      apply List.mem_flatMap.mpr ⟨_, ih, mem_admitted.mpr ⟨mem, ?_⟩⟩
      exact (admits_container container).mpr ⟨descends, within⟩

theorem mem_levelOrder : v ∈ levelOrder cfg root ↔ ∃ depth, Tested cfg root depth v := by
  rw [levelOrder, List.mem_flatMap]
  constructor
  · rintro ⟨depth, -, mem⟩
    exact ⟨depth, mem_level.mp mem⟩
  · rintro ⟨depth, tested⟩
    have mem := mem_level.mpr tested
    have bound := height_of_mem_level mem
    have positive := height_pos v.node
    exact ⟨depth, List.mem_range.mpr (by omega), mem⟩

theorem Tested.child {child : TreeValue} (tested : Tested cfg root depth v)
    (mem : child ∈ admitted cfg depth v) : Tested cfg root (depth + 1) child :=
  mem_level.mp (List.mem_flatMap.mpr ⟨v, mem_level.mpr tested, mem⟩)

/-- The preorder from a tested node on lists tested nodes. -/
theorem tested_of_mem_preorder {w : TreeValue} (mem : w ∈ preorder cfg depth v)
    (tested : Tested cfg root depth v) : ∃ depth, Tested cfg root depth w := by
  induction size : sizeOf v.node using Nat.strongRecOn generalizing v depth with
  | ind size ih =>
    rw [preorder_eq] at mem
    rcases List.mem_cons.mp mem with rfl | mem
    · exact ⟨depth, tested⟩
    · obtain ⟨child, below, mem⟩ := List.mem_flatMap.mp mem
      exact ih _ (size ▸ TreeValue.sizeOf_lt (mem_admitted.mp below).1) mem (tested.child below) rfl

/-- The preorder from a tested node on is part of the whole preorder. -/
theorem preorder_subset {w : TreeValue} (tested : Tested cfg root depth v)
    (mem : w ∈ preorder cfg depth v) : w ∈ preorder cfg 0 root := by
  induction depth generalizing v with
  | zero =>
    cases List.mem_singleton.mp (mem_level.mpr tested)
    exact mem
  | succ depth ih =>
    obtain ⟨parent, above, child⟩ := List.mem_flatMap.mp (mem_level.mpr tested)
    apply ih (mem_level.mp above)
    rw [preorder_eq]
    exact List.mem_cons_of_mem _ (List.mem_flatMap.mpr ⟨v, child, mem⟩)

theorem mem_preorder : v ∈ preorder cfg 0 root ↔ ∃ depth, Tested cfg root depth v := by
  constructor
  · intro mem
    exact tested_of_mem_preorder mem .root
  · rintro ⟨depth, tested⟩
    apply preorder_subset tested
    rw [preorder_eq]
    exact List.mem_cons_self

/-! ## No node twice -/

/-- Different nodes of the tree stand at different places. -/
def Apart (a b : TreeValue) : Prop := a.position ≠ b.position

theorem child_position {child : TreeValue} (mem : child ∈ v.children) :
    ∃ idx, child.position = v.position ++ [idx] := by
  obtain ⟨idx, lt, rfl⟩ := List.mem_mapIdx.mp mem
  exact ⟨idx, rfl⟩

theorem children_apart (v : TreeValue) : v.children.Pairwise Apart := by
  apply List.pairwise_iff_getElem.mpr
  intro i j hi hj lt
  simp only [TreeValue.children, List.getElem_mapIdx, Apart, ne_eq, List.append_cancel_left_eq,
    List.cons.injEq, and_true]
  omega

theorem admitted_apart (v : TreeValue) : (admitted cfg depth v).Pairwise Apart :=
  (children_apart v).filter _

theorem prefix_of_mem_preorder {w : TreeValue} (mem : w ∈ preorder cfg depth v) :
    v.position <+: w.position := by
  induction size : sizeOf v.node using Nat.strongRecOn generalizing v depth with
  | ind size ih =>
    rw [preorder_eq] at mem
    rcases List.mem_cons.mp mem with rfl | mem
    · exact List.prefix_refl _
    · obtain ⟨child, below, mem⟩ := List.mem_flatMap.mp mem
      have down := (mem_admitted.mp below).1
      obtain ⟨idx, eq⟩ := child_position down
      have deeper := ih _ (size ▸ TreeValue.sizeOf_lt down) mem rfl
      rw [eq] at deeper
      exact (List.prefix_append _ _).trans deeper

theorem preorder_apart (v : TreeValue) : (preorder cfg depth v).Pairwise Apart := by
  induction size : sizeOf v.node using Nat.strongRecOn generalizing v depth with
  | ind size ih =>
    rw [preorder_eq, List.pairwise_cons, List.pairwise_flatMap]
    refine ⟨?_, ?_, ?_⟩
    · intro w mem same
      obtain ⟨child, below, mem⟩ := List.mem_flatMap.mp mem
      obtain ⟨idx, eq⟩ := child_position (mem_admitted.mp below).1
      have le := (prefix_of_mem_preorder mem).length_le
      rw [eq, ← same, List.length_append, List.length_singleton] at le
      omega
    · intro child below
      exact ih _ (size ▸ TreeValue.sizeOf_lt (mem_admitted.mp below).1) child rfl
    · apply List.Pairwise.imp_of_mem _ (admitted_apart v)
      intro a b ha hb apart x hx y hy same
      obtain ⟨i, ai⟩ := child_position (mem_admitted.mp ha).1
      obtain ⟨j, bj⟩ := child_position (mem_admitted.mp hb).1
      have pa := prefix_of_mem_preorder hx
      have pb := prefix_of_mem_preorder hy
      rw [same] at pa
      apply apart
      apply List.IsPrefix.eq_of_length (List.prefix_of_prefix_length_le pa pb _)
      · rw [ai, bj, List.length_append, List.length_append]
        rfl
      · rw [ai, bj, List.length_append, List.length_append]
        exact Nat.le_refl _

theorem length_of_mem_level (mem : v ∈ level cfg root depth) :
    v.position.length = root.position.length + depth := by
  induction depth generalizing v with
  | zero =>
    cases List.mem_singleton.mp mem
    rfl
  | succ depth ih =>
    obtain ⟨parent, above, child⟩ := List.mem_flatMap.mp mem
    obtain ⟨idx, eq⟩ := child_position (mem_admitted.mp child).1
    rw [eq, List.length_append, ih above]
    rfl

theorem level_apart (root : TreeValue) (depth : Nat) : (level cfg root depth).Pairwise Apart := by
  induction depth with
  | zero => exact List.pairwise_singleton _ _
  | succ depth ih =>
    rw [level, List.pairwise_flatMap]
    constructor
    · intro v _
      exact admitted_apart v
    · apply ih.imp
      intro a b apart x hx y hy same
      obtain ⟨i, xi⟩ := child_position (mem_admitted.mp hx).1
      obtain ⟨j, yj⟩ := child_position (mem_admitted.mp hy).1
      apply apart
      rw [xi, yj] at same
      exact (List.append_inj' same rfl).1

theorem levelOrder_apart (root : TreeValue) : (levelOrder cfg root).Pairwise Apart := by
  rw [levelOrder, List.pairwise_flatMap]
  constructor
  · intro depth _
    exact level_apart root depth
  · apply List.pairwise_lt_range.imp
    intro i j lt x hx y hy same
    have lx := length_of_mem_level hx
    have ly := length_of_mem_level hy
    rw [same] at lx
    omega

end Orders

/-- The order in which a search tests the nodes. -/
def searchOrder (cfg : FindConfig) (root : TreeValue) : List TreeValue :=
  if cfg.depthFirst then preorder cfg 0 root else levelOrder cfg root

theorem find_yields (cfg : FindConfig) (root : TreeValue) :
    Outcome.Yields (findIterStep cfg) [FindFrame.init root 0] (searchOrder cfg root) := by
  unfold searchOrder
  cases mode : cfg.depthFirst with
  | true => exact dfs_yields mode root
  | false => exact bfs_yields mode root

theorem mem_searchOrder {cfg : FindConfig} {root v : TreeValue} :
    v ∈ searchOrder cfg root ↔ ∃ depth, Tested cfg root depth v := by
  unfold searchOrder
  split
  · exact mem_preorder
  · exact mem_levelOrder

theorem searchOrder_apart (cfg : FindConfig) (root : TreeValue) :
    (searchOrder cfg root).Pairwise Apart := by
  unfold searchOrder
  split
  · exact preorder_apart root
  · exact levelOrder_apart root

theorem findIterInit_eq (cfg : FindConfig) {root : TreeValue} (container : root.isContainer = true) :
    findIterInit cfg root = some [FindFrame.init root 0] := by
  have shallow : ¬ ((cfg.maxDepth ≥ 0 ∧ (0 : Int) > cfg.maxDepth) ∨
      (([] : List FindFrame).length > 0 ∧ cfg.descends root = false)) := by
    simp
  rw [findIterInit, if_pos container, findIterPushFrame, if_neg shallow]
  rfl

/-- A search of a container ends. It tests every node that it is to test once,
in preorder or in level order, and finds the ones that the predicate selects. -/
theorem find_iter_complete (cfg : FindConfig) (root : TreeValue)
    (container : root.isContainer = true) :
    ∃ frames tested, findIterInit cfg root = some frames ∧
      (∃ n, ∀ fuel ≥ n, findIterAll cfg fuel frames = .ret (tested, tested.filter cfg.selects)) ∧
      tested = (if cfg.depthFirst then preorder cfg 0 root else levelOrder cfg root) ∧
      (∀ v, v ∈ tested ↔ ∃ depth, Tested cfg root depth v) ∧ tested.Pairwise Apart := by
  refine ⟨[FindFrame.init root 0], searchOrder cfg root, findIterInit_eq cfg container, ?_, rfl, ?_,
    searchOrder_apart cfg root⟩
  · exact (find_yields cfg root).drain
  · intro v
    exact mem_searchOrder

/-- A sequence of a scalar and an empty sequence. -/
def smallTree : TreeValue :=
  ⟨.sequence none [.scalar none .plain [97], .sequence none []], []⟩

def everything : FindConfig := ⟨none, true, none, -1⟩

theorem find_iter_complete_small :
    smallTree.isContainer = true ∧
    ∃ frames tested, findIterInit everything smallTree = some frames ∧
      (∃ n, ∀ fuel ≥ n,
        findIterAll everything fuel frames = .ret (tested, tested.filter everything.selects)) ∧
      tested = (if everything.depthFirst then preorder everything 0 smallTree
        else levelOrder everything smallTree) ∧
      (∀ v, v ∈ tested ↔ ∃ depth, Tested everything smallTree depth v) ∧
      tested.Pairwise Apart :=
  ⟨rfl, find_iter_complete everything smallTree rfl⟩

end LibAsdf
