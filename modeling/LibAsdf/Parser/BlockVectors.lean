import LibAsdf.Base.Calls
import LibAsdf.Parser.BlockSteps

/-!
# The vectors of the block table

The sizes of `block.index` and `block.infos` against the counters, in every
state that calls lead to.

* `BlockTable.Fits`: the invariant, which puts the accesses in range;
* `BlockTable.Outgrown`: the tables for which one more block is too many;
* `counted_fits`, `indexRead_fits`: the steps that change the table;
* `parser_vectors`: no call reads or writes a vector out of range, unless a
  block follows an outgrown table.
-/

namespace LibAsdf

open StreamOps ParserStream StreamMeasure LawfulStream

/-! ## Vectors -/

section Vectors

variable {α : Type} {policy : VecPolicy}

theorem pushes_items (v : Vec α) (as : List α) :
    (as.foldl (Vec.push policy) v).items = v.items ++ as := by
  induction as generalizing v with
  | nil => exact (List.append_nil _).symm
  | cons a as ih => rw [List.foldl_cons, ih, Vec.push, List.append_assoc, List.singleton_append]

/-- Pushes for which there is room leave the capacity. -/
theorem pushes_capacity {v : Vec α} {as : List α} (room : v.size + as.length ≤ v.capacity) :
    (as.foldl (Vec.push policy) v).capacity = v.capacity := by
  induction as generalizing v with
  | nil => rfl
  | cons a as ih =>
    rw [List.length_cons] at room
    have same : (v.push policy a).capacity = v.capacity := if_pos (by omega)
    rw [List.foldl_cons, ih, same]
    rw [same, Vec.size_push]
    omega

/-- An index vector that is empty takes the entries read, with the capacity
reserved for all items. -/
theorem pushes_reserved (exact : policy.Exact) {entries : List Int64} {n : Nat}
    (le : entries.length ≤ n) :
    (entries.foldl (Vec.push policy) (Vec.reserve policy Vec.empty n)).items = entries ∧
      (entries.foldl (Vec.push policy) (Vec.reserve policy Vec.empty n)).capacity = n := by
  have capacity : (Vec.reserve policy (Vec.empty : Vec Int64) n).capacity = n := by
    rw [Vec.reserve, exact, Vec.empty]
    exact Nat.max_eq_right (Nat.zero_le n)
  refine ⟨pushes_items _ _, ?_⟩
  rw [pushes_capacity, capacity]
  rw [capacity, Vec.size, Vec.reserve, Vec.empty, List.length_nil]
  omega

theorem resize_items (policy : VecPolicy) (v : Vec α) (n : Nat) (fill : α) (le : v.size ≤ n) :
    (v.resize policy n fill).items = v.items ++ List.replicate (n - v.size) fill :=
  congrArg (· ++ _) (List.take_of_length_le le)

end Vectors

theorem readEntries_length {items : List (Option Int64)} {entries : List Int64} {ok : Bool}
    (h : readEntries items = (entries, ok)) :
    entries.length ≤ items.length ∧ (ok = true ↔ entries.length = items.length) := by
  induction items generalizing entries ok with
  | nil =>
    cases h
    exact ⟨Nat.le_refl _, by simp⟩
  | cons item items ih =>
    cases item with
    | none =>
      cases h
      exact ⟨Nat.zero_le _, by simp⟩
    | some offset =>
      cases rest : readEntries items with
      | mk entries' ok' =>
        rw [readEntries, rest] at h
        cases h
        obtain ⟨le, iff⟩ := ih rest
        simp only [List.length_cons]
        exact ⟨Nat.succ_le_succ le, by rw [iff]; omega⟩

/-! ## The invariant -/

namespace BlockTable

variable (b : BlockTable)

/-- No entry from here on is a position in the stream. -/
def Spent : Prop :=
  b.count ≤ b.found ∧ ∀ (i : Nat) (offset : Int64), b.found ≤ i →
    b.index.items[i]? = some offset → offset < 0

/-- The index holds what was reserved for it, unless its document was cut
short; an adopted index has an info for each entry that is looked up. -/
structure Fits : Prop where
  found : b.found ≤ b.index.capacity
  index : b.index.size = b.index.capacity ∨
    b.hasIndex = false ∧ b.index.size < b.index.capacity ∧ b.found ≤ b.index.size
  infos : b.hasIndex → b.index.size ≤ b.infos.size ∨ b.found < b.infos.size ∧ b.Spent

/-- One more block is too many: for an index cut short, where its entries end
before its capacity does; for an adopted one, where all its entries named
blocks, so that the index grows faster than the infos. -/
def Outgrown : Prop :=
  b.index.size ≤ b.found ∧ b.found < b.index.capacity ∨
  b.hasIndex ∧ b.infos.size = b.found ∧ b.found = b.index.capacity ∧ b.index.capacity ≠ 1

end BlockTable

variable {b b' : BlockTable} {policy : VecPolicy}

theorem BlockTable.Fits.listed (h : b.Fits) (looks : b.LooksUp) : b.found < b.infos.size := by
  rcases h.infos looks.1 with le | ⟨lt, -⟩
  · exact Nat.lt_of_lt_of_le looks.2 le
  · exact lt

theorem fits_fresh : BlockTable.Fits ⟨Vec.empty, Vec.empty, false, 0, 0⟩ :=
  ⟨Nat.le_refl _, .inl rfl, nofun⟩

/-- Reading a block index into the fresh table. -/
theorem indexRead_fits {φ : Type} {env : Env φ} (exact : env.vec.Exact)
    (h : IndexRead env ⟨Vec.empty, Vec.empty, false, 0, 0⟩ b) : b.Fits := by
  cases h with
  | untouched => exact fits_fresh
  | cut items entries read =>
    obtain ⟨le, iff⟩ := readEntries_length read
    obtain ⟨pushed, capacity⟩ := pushes_reserved exact le
    have short : entries.length ≠ items.length := fun eq => nomatch iff.mpr eq
    refine ⟨Nat.zero_le _, .inr ⟨rfl, ?_, Nat.zero_le _⟩, nofun⟩
    simp only [Vec.size, pushed, capacity]
    omega
  | refused items entries read =>
    obtain ⟨le, iff⟩ := readEntries_length read
    obtain ⟨pushed, capacity⟩ := pushes_reserved exact le
    refine ⟨Nat.zero_le _, .inl ?_, nofun⟩
    simp only [Vec.size, pushed, capacity]
    exact iff.mp rfl
  | adopted items entries read infos size capacity count =>
    obtain ⟨le, iff⟩ := readEntries_length read
    obtain ⟨pushed, capacity'⟩ := pushes_reserved exact le
    refine ⟨Nat.zero_le _, .inl ?_, fun _ => .inl ?_⟩
    · simp only [Vec.size, pushed, capacity']
      exact iff.mp rfl
    · have listed : infos.length = entries.length := size.trans (congrArg List.length pushed)
      simp only [pushInfos, Vec.size, pushed, pushes_items, List.length_append, listed]
      exact Nat.le_add_left _ _

/-! ## Counting a block -/

/-- The index as it has room for one more block. -/
inductive Grown (b : BlockTable) : Vec Int64 → Prop
  | room (inside : b.found < b.index.size) : Grown b b.index
  | resized (n : Nat) (full : b.found = b.index.capacity) (all : b.index.size = b.found)
      (more : b.found < n) (least : b.index.capacity = 1 → n = 2) :
      Grown b ⟨b.index.items ++ List.replicate (n - b.index.size) (-1), n⟩

theorem Grown.size_lt {index : Vec Int64} (h : Grown b index) : b.found < index.size := by
  cases h with
  | room inside => exact inside
  | resized n full all more least =>
    rw [Vec.size, List.length_append, List.length_replicate]
    change b.found < b.index.size + (n - b.index.size)
    omega

theorem grownIndex_grown (exact : policy.Exact) (found : b.found ≤ b.index.capacity)
    (index : b.index.size = b.index.capacity ∨
      b.index.size ≤ b.index.capacity ∧ b.found < b.index.size) :
    Grown b (b.grownIndex policy) := by
  rw [BlockTable.grownIndex]
  split
  · rename_i full
    have le : b.index.size ≤ if b.index.capacity = 0 then 8 else b.index.capacity * 2 := by
      split <;> omega
    have resized : b.index.resize policy
        (if b.index.capacity = 0 then 8 else b.index.capacity * 2) (-1) =
        ⟨b.index.items ++ List.replicate ((if b.index.capacity = 0 then 8
          else b.index.capacity * 2) - b.index.size) (-1),
          if b.index.capacity = 0 then 8 else b.index.capacity * 2⟩ := by
      have items := resize_items policy b.index _ (-1 : Int64) le
      have capacity : max b.index.capacity (if b.index.capacity = 0 then 8
          else b.index.capacity * 2) = if b.index.capacity = 0 then 8
          else b.index.capacity * 2 := by
        split <;> omega
      rw [Vec.resize, exact, capacity]
      exact congrArg (Vec.mk · _) items
    rw [resized]
    refine .resized _ (by omega) (by omega) ?_ fun one => ?_
    · split <;> omega
    · rw [if_neg (by omega), one]
  · exact .room (by omega)

theorem BlockTable.Fits.room (fits : b.Fits) (small : ¬ b.Outgrown) :
    b.index.size = b.index.capacity ∨
      b.index.size ≤ b.index.capacity ∧ b.found < b.index.size := by
  refine fits.index.imp_right fun ⟨_, short, le⟩ =>
    ⟨Nat.le_of_lt short, Nat.lt_of_le_of_ne le fun eq => ?_⟩
  exact small (.inl ⟨Nat.le_of_eq eq.symm, eq ▸ short⟩)

variable {σ φ : Type} [ParserStream σ] [LawfulStream σ] {env : Env φ} {p q : Parser σ φ}

/-- The index that a look-up leaves: at most the entry it looked at is marked. -/
theorem NextBlock.index {info : BlockInfo} (next : NextBlock env p (some info, q)) :
    q.block.found = p.block.found ∧ q.block.index.capacity = p.block.index.capacity ∧
      q.block.index.size = p.block.index.size ∧
      ∀ i, p.block.found < i → q.block.index.items[i]? = p.block.index.items[i]? := by
  cases next with
  | indexed s infos info keeps => exact ⟨rfl, rfl, rfl, fun _ _ => rfl⟩
  | read s infos index info keeps size same =>
    obtain ⟨capacity, items | items⟩ := same
    · exact ⟨rfl, capacity, congrArg List.length items, fun i _ => congrArg (·[i]?) items⟩
    · refine ⟨rfl, capacity, (congrArg List.length items).trans List.length_set, fun i lt => ?_⟩
      exact (congrArg (·[i]?) items).trans (List.getElem?_set_ne (Nat.ne_of_lt lt))

theorem NextBlock.infos {info : BlockInfo} (next : NextBlock env p (some info, q)) :
    q.block.infos.size = p.block.infos.size ∧ p.block.LooksUp ∧ ¬ p.block.Sequential ∨
      q.block.infos.size = p.block.infos.size + 1 := by
  cases next with
  | indexed s infos info keeps looks size hit => exact .inl ⟨size, looks, hit⟩
  | read s infos index info keeps size same => exact .inr size

theorem BlockTable.Spent.sequential (h : b.Spent) : b.Sequential := fun _ =>
  ⟨h.1, fun offset => h.2 b.found offset (Nat.le_refl _)⟩

theorem NextBlock.grown (exact : env.vec.Exact) (fits : p.block.Fits)
    (small : ¬ p.block.Outgrown) {info : BlockInfo} (next : NextBlock env p (some info, q)) :
    Grown q.block (q.block.grownIndex env.vec) := by
  obtain ⟨found, capacity, size, -⟩ := next.index
  refine grownIndex_grown exact ?_ ?_
  · rw [found, capacity]
    exact fits.found
  · rw [found, capacity, size]
    exact fits.room small

/-- Counting a block keeps the invariant, if the table was not outgrown. -/
theorem counted_fits (exact : env.vec.Exact) (fits : p.block.Fits) (small : ¬ p.block.Outgrown)
    {info : BlockInfo} (next : NextBlock env p (some info, q))
    (counted : q.block.Counted env.vec b) : b.Fits := by
  obtain ⟨found, capacity, size, later⟩ := next.index
  have grown := next.grown exact fits small
  have length : b.index.size = (q.block.grownIndex env.vec).size := by
    rcases counted.items with eq | ⟨offset, eq⟩
    · exact congrArg List.length eq
    · exact (congrArg List.length eq).trans List.length_set
  have entry : ∀ i, p.block.found < i →
      b.index.items[i]? = (q.block.grownIndex env.vec).items[i]? := by
    intro i lt
    rcases counted.items with eq | ⟨offset, eq⟩
    · rw [eq]
    · rw [eq, List.getElem?_set_ne (by omega)]
  have foundEq : b.found = p.block.found + 1 := by rw [counted.found, found]
  have countEq : b.count = p.block.found + 1 := by rw [counted.count, found]
  generalize grownIs : q.block.grownIndex env.vec = index at grown length entry
  have capacityEq : b.index.capacity = index.capacity := by rw [counted.capacity, grownIs]
  have infosEq : b.infos.size = q.block.infos.size := congrArg Vec.size counted.infos
  have adoptedEq : b.hasIndex → p.block.hasIndex := fun adopted =>
    (next.frame.hasIndex.symm.trans counted.hasIndex.symm).trans adopted
  cases grown with
  | room inside =>
    rw [found, size] at inside
    rw [size] at length
    rw [capacity] at capacityEq
    refine ⟨?_, ?_, fun adopted => ?_⟩
    · have := fits.index
      omega
    · rw [length, capacityEq, foundEq, counted.hasIndex, next.frame.hasIndex]
      exact fits.index.imp_right fun ⟨fixed, short, _⟩ => ⟨fixed, short, inside⟩
    · rcases fits.infos (adoptedEq adopted) with le | ⟨lt, spent⟩
      · refine .inl ?_
        rw [length, infosEq]
        rcases next.infos with ⟨same, -⟩ | more <;> omega
      · rcases next.infos with ⟨-, -, hit⟩ | more
        · exact absurd spent.sequential hit
        · refine .inr ⟨by omega, by omega, fun i offset le eq => ?_⟩
          rw [entry i (by omega), later i (by omega)] at eq
          exact spent.2 i offset (by omega) eq
  | resized n full all more least =>
    rw [found, capacity] at full
    rw [found, size] at all
    rw [found] at more
    rw [capacity] at least
    have filled : b.index.size = n := by
      rw [length, Vec.size, List.length_append, List.length_replicate]
      change q.block.index.size + (n - q.block.index.size) = n
      omega
    have capacityEq : b.index.capacity = n := capacityEq
    refine ⟨by omega, .inl (by omega), fun adopted => ?_⟩
    have adopted := adoptedEq adopted
    have read : q.block.infos.size = p.block.infos.size + 1 := by
      rcases next.infos with ⟨-, looks, -⟩ | read
      · exact absurd looks.2 (by omega)
      · exact read
    have listed : p.block.found ≤ p.block.infos.size := by
      rcases fits.infos adopted with le | ⟨lt, -⟩ <;> omega
    by_cases last : p.block.infos.size = p.block.found
    · -- Only an index of one entry does not grow past the infos
      have one : p.block.index.capacity = 1 := by
        by_contra other
        exact small (.inr ⟨adopted, last, full, other⟩)
      have := least one
      exact .inl (by omega)
    · refine .inr ⟨by omega, by omega, fun i offset le eq => ?_⟩
      rw [entry i (by omega), List.getElem?_append_right
        (show q.block.index.items.length ≤ i by change q.block.index.size ≤ i; omega),
        List.getElem?_replicate] at eq
      split at eq
      · cases eq
        decide
      · cases eq

/-! ## One turn -/

/-- The states up to the block index. -/
def ParserState.Early (state : ParserState) : Prop :=
  state = .asdfVersion ∨ state = .standardVersion ∨ state = .comment ∨ state = .blockIndex

/-- What holds between two turns: the table is fresh up to the block index, and
fits until the end. -/
structure VectorsFit (p : Parser σ φ) : Prop where
  good : Good p.stream
  seekable : p.block.hasIndex → p.isSeekable
  fresh : p.state.Early → p.block = ⟨Vec.empty, Vec.empty, false, 0, 0⟩
  fits : p.state ≠ .end → p.block.Fits

/-- No block follows an outgrown table. -/
def BlocksFit (env : Env φ) (p : Parser σ φ) : Prop :=
  p.state = .block → p.block.Outgrown →
    ∀ r, parseNewBlock env p = .ret r → r.1 = none

omit [LawfulStream σ] in
theorem parseBlockInfo_outgrown (fits : p.block.Fits) (outgrown : p.block.Outgrown) :
    parseBlockInfo env p = parseNewBlock env p := by
  have past : ¬ p.block.found < p.block.index.size := by
    rcases outgrown with ⟨le, -⟩ | ⟨adopted, -, full, -⟩
    · exact Nat.not_lt_of_le le
    · rcases fits.index with eq | ⟨fixed, -⟩
      · omega
      · exact nomatch fixed.symm.trans adopted
  rw [parseBlockInfo]
  simp only [past, decide_false, Bool.and_false, Bool.false_eq_true, if_false]

/-- What a turn keeps, and that it touches no vector out of range. -/
abbrev KeepsVectors (x : Run (Parser σ φ ⊕ (Option Event × Parser σ φ))) : Prop :=
  Outcome.wp (fun e => e ≠ .vector) True
    (fun | .inl q => VectorsFit q | .inr (_, q) => VectorsFit q) x

/-- A parser that left its table alone. -/
theorem VectorsFit.moves (h : VectorsFit p) (before : p.state ≠ .end)
    (keeps : Keeps p.stream q.stream) (block : q.block = p.block)
    (early : q.state.Early → p.state.Early) : VectorsFit q where
  good := keeps.good
  seekable adopted := keeps.seekable.trans (h.seekable (block ▸ adopted))
  fresh late := block.trans (h.fresh (early late))
  fits _ := block ▸ h.fits before

/-- A handler that leaves the table alone. -/
theorem keeps_of_handler {T : Prop} {Q : ParseResult × Parser σ φ → Prop}
    {x : Run (ParseResult × Parser σ φ)} (h : VectorsFit p) (before : p.state ≠ .end)
    (hx : Outcome.wp (fun e => e ≠ .vector) T Q x)
    (moves : ∀ res q, Q (res, q) → Keeps p.stream q.stream ∧ q.block = p.block ∧
      (q.state.Early → p.state.Early)) : KeepsVectors (x >>= afterHandler) := by
  refine Outcome.wp_seq (Outcome.wp_imp hx (fun _ => id) fun _ => trivial) fun r hr => ?_
  obtain ⟨res, q⟩ := r
  obtain ⟨keeps, block, early⟩ := moves res q hr
  cases res with
  | error => exact h.moves before keeps block nofun
  | «continue» => exact h.moves before keeps block early
  | event e => exact h.moves before keeps block early

theorem parseBlockIndex_keeps (exact : env.vec.Exact) (h : VectorsFit p)
    (state : p.state = .blockIndex) (fuel : Nat) :
    KeepsVectors (parseBlockIndex env fuel p >>= afterHandler) := by
  refine Outcome.wp_seq (Outcome.wp_imp (parseBlockIndex_spec h.good env fuel) (fun _ => id)
    fun _ => trivial) fun r hr => ?_
  have fresh := h.fresh (by simp [ParserState.Early, state])
  obtain ⟨res, q⟩ := r
  rcases hr with ⟨eq, -⟩ | ⟨s, b, keeps, read, seekable, eq | eq⟩
  · cases eq
    exact h.moves (by rw [state]; decide) (.refl h.good) rfl (by simp [ParserState.Early])
  · cases eq
    rw [fresh] at read
    exact ⟨keeps.good, fun _ => keeps.seekable.trans seekable, by simp [ParserState.Early],
      fun _ => indexRead_fits exact read⟩
  · cases eq
    rw [fresh] at read
    have fits : ∀ state : ParserState, ¬ state.Early →
        VectorsFit { p with stream := s, block := b, state := state } := fun state late =>
      ⟨keeps.good, fun _ => keeps.seekable.trans seekable, fun early => absurd early late,
        fun _ => indexRead_fits exact read⟩
    cases res with
    | error => exact fits .error (by simp [ParserState.Early])
    | «continue» => exact fits .treeOrBlock (by simp [ParserState.Early])
    | event e => exact fits .treeOrBlock (by simp [ParserState.Early])

theorem parseBlock_keeps (exact : env.vec.Exact) (h : VectorsFit p) (state : p.state = .block)
    (ok : BlocksFit env p) : KeepsVectors (parseBlock env p >>= afterHandler) := by
  have fits := h.fits (by rw [state]; decide)
  -- A block that is found follows a table that is not outgrown
  have small : ∀ {info q}, parseBlockInfo env p = .ret (some info, q) → ¬ p.block.Outgrown := by
    intro info q found outgrown
    rw [parseBlockInfo_outgrown fits outgrown] at found
    exact nomatch ok state outgrown _ found
  refine Outcome.wp_seq (Outcome.wp_imp (parseBlock_spec h.good h.seekable env) ?_
    fun _ => trivial) fun r hr => ?_
  · rintro e faults rfl
    rcases faults rfl with ⟨looks, short⟩ | ⟨info, q, found, cramped⟩
    · exact absurd (fits.listed looks) (Nat.not_lt_of_le short)
    · have next := Outcome.wp_of_ret (parseBlockInfo_spec h.good h.seekable fits.listed env) found
      have room := (next.grown exact fits (small found)).size_lt
      omega
  · cases hr with
    | full => exact h.moves (by rw [state]; decide) (.refl h.good) rfl nofun
    | ended q next index =>
      have frame := next.frame
      exact ⟨frame.keeps.good, fun adopted => frame.keeps.seekable.trans
        (h.seekable (frame.hasIndex.symm.trans adopted)), by simp [ParserState.Early],
        fun other => absurd rfl other⟩
    | block q info found next s b counted keeps less res result =>
      have frame := next.frame
      have after : b.Fits := counted_fits exact fits (small found) next counted
      have moved := frame.keeps.trans keeps
      have fitted : ∀ state : ParserState, ¬ state.Early →
          VectorsFit { q with stream := s, block := b, state := state } := fun state late =>
        ⟨moved.good, fun adopted => moved.seekable.trans
          (h.seekable ((counted.hasIndex.trans frame.hasIndex).symm.trans adopted)),
          fun early => absurd early late, fun _ => after⟩
      have still : q.state = .block := frame.state.trans state
      rcases result with rfl | rfl
      · exact fitted .error (by simp [ParserState.Early])
      · have := fitted q.state (by simp [ParserState.Early, still])
        exact this

/-- One turn keeps the invariant, and touches no vector out of range. -/
theorem parserStep_keeps (exact : env.vec.Exact) (h : VectorsFit p) (ok : BlocksFit env p)
    (fuel : Nat) : KeepsVectors (parserStep env fuel p) := by
  have early : ∀ {q : Parser σ φ}, p.state.Early → q.state.Early → p.state.Early := fun h _ => h
  rw [parserStep]
  split
  · rename_i state
    refine keeps_of_handler h (by rw [state]; decide) (parseAsdfVersion_spec h.good) ?_
    rintro res q ⟨s, onward, eq | ⟨version, eq⟩⟩ <;> cases eq
    · exact ⟨onward.toKeeps, rfl, id⟩
    · exact ⟨onward.toKeeps, rfl, fun _ => .inl state⟩
  · rename_i state
    refine keeps_of_handler h (by rw [state]; decide) (parseStandardVersion_spec h.good) ?_
    rintro res q ⟨s, onward, eq | ⟨version, eq⟩⟩ <;> cases eq
    · exact ⟨onward.toKeeps, rfl, id⟩
    · exact ⟨onward.toKeeps, rfl, fun _ => .inr (.inl state)⟩
  · rename_i state
    refine keeps_of_handler h (by rw [state]; decide) (parseComment_spec h.good fuel) ?_
    rintro res q ⟨s, onward, eq | ⟨text, eq, -⟩ | eq⟩ <;> cases eq
    · exact ⟨onward.toKeeps, rfl, id⟩
    · exact ⟨onward.toKeeps, rfl, id⟩
    · exact ⟨onward.toKeeps, rfl, fun _ => .inr (.inr (.inl state))⟩
  · rename_i state
    refine keeps_of_handler h (by rw [state]; decide) (parseTreeOrBlock_spec h.good fuel) ?_
    rintro res q ⟨s, onward, eq | ⟨info, tree, eq⟩ | ⟨tree, eq⟩⟩ <;> cases eq
    all_goals exact ⟨onward.toKeeps, rfl, by simp [ParserState.Early]⟩
  · rename_i state
    refine keeps_of_handler h (by rw [state]; decide) (parseTree_spec h.good env fuel) ?_
    rintro res q ⟨s, tree, keeps, eq | ⟨input, y, -, eq⟩ | ⟨info, eq⟩⟩ <;> cases eq
    · exact ⟨keeps, rfl, id⟩
    · exact ⟨keeps, rfl, by simp [ParserState.Early]⟩
    · exact ⟨keeps, rfl, by simp [ParserState.Early]⟩
  · rename_i state
    refine keeps_of_handler h (by rw [state]; decide) (parseYaml_spec h.good env) ?_
    rintro res q (⟨-, info, eq⟩ | ⟨-, y, -, next⟩)
    · cases eq
      exact ⟨.refl h.good, rfl, by simp [ParserState.Early]⟩
    · cases next with
      | failed s tree keeps => exact ⟨keeps, rfl, id⟩
      | ended s tree keeps => exact ⟨keeps, rfl, id⟩
      | event s tree keeps => exact ⟨keeps, rfl, id⟩
  · exact parseBlock_keeps exact h ‹_› ok
  · rename_i state
    exact h.moves (by rw [state]; decide) (.refl h.good) rfl (by simp [ParserState.Early])
  · exact parseBlockIndex_keeps exact h ‹_› fuel
  · rename_i state
    have done : VectorsFit { p with done := true } :=
      ⟨h.good, h.seekable, h.fresh, fun other => absurd state other⟩
    split
    · exact done
    · exact h
  · rename_i state
    exact h.moves (by rw [state]; decide) (.refl h.good) rfl id
  · rename_i state
    exact h.moves (by rw [state]; decide) (onward_setError h.good _).toKeeps rfl id

/-! ## Successive calls -/

/-- Where no block follows an outgrown table, the table fits in every state that
calls lead to, and no access is out of range. -/
theorem parser_vectors (exact : env.vec.Exact) {stream : σ} (good : Good stream) {flags : UInt64}
    {fuel : Nat} {results : List (Option Event)}
    (calls : Outcome.Calls (parserStep env fuel) fuel (BlocksFit env)
      (parserCreate flags stream) results p)
    (ok : ∀ t, Outcome.Turns (parserStep env fuel) p t → BlocksFit env t) :
    parserParse env fuel p ≠ .fault .vector ∧
      ∀ t, Outcome.Turns (parserStep env fuel) p t → t.state ≠ .end → t.block.Fits := by
  have start : VectorsFit (parserCreate flags stream : Parser σ φ) :=
    ⟨good, nofun, fun _ => rfl, fun _ => fits_fresh⟩
  have turn : ∀ s s' : Parser σ φ, VectorsFit s → BlocksFit env s →
      parserStep env fuel s = .ret (.inl s') → VectorsFit s' := fun s s' h ok turn => by
    have kept := Outcome.wp_of_ret (parserStep_keeps exact h ok fuel) turn
    exact kept
  have exit : ∀ (s : Parser σ φ) e s', VectorsFit s → BlocksFit env s →
      parserStep env fuel s = .ret (.inr (e, s')) → VectorsFit s' := fun s e s' h ok exit => by
    have kept := Outcome.wp_of_ret (parserStep_keeps exact h ok fuel) exit
    exact kept
  have here : VectorsFit p := calls.invariant (I := fun _ => VectorsFit) (fun _ => turn)
    (fun _ => exit) start
  have turns : ∀ t, Outcome.Turns (parserStep env fuel) p t → VectorsFit t := fun t turns =>
    turns.invariant_of_ok turn ok here
  refine ⟨fun faults => ?_, fun t path => (turns t path).fits⟩
  obtain ⟨t, path, fault⟩ := Outcome.exists_fault_of_loop faults
  have keeps := parserStep_keeps exact (turns t path) (ok t path) fuel
  rw [fault] at keeps
  exact keeps rfl

instance (b : BlockTable) : Decidable b.Outgrown := inferInstanceAs (Decidable (_ ∨ _ ∧ _ ∧ _ ∧ _))

/-- A file of one block and a block index with the text `document`. -/
def indexedFile (document : Bytes) : Bytes :=
  withVersions (emptyBlock ++ blockIndexHeader ++ newline :: document ++ [newline])

/-- An index of one entry, and the block that it names. -/
theorem parser_vectors_one_entry : ∃ p : Parser MemStream Unit,
    Outcome.Calls (parserStep ⟨fyamlOf (some [some 25]), .stc, 4096⟩ 100) 100
      (BlocksFit ⟨fyamlOf (some [some 25]), .stc, 4096⟩)
      (parserCreate 0 (streamFromMemory (indexedFile [91, 50, 53, 93])))
      [some (.asdfVersion (versionParse [49])), some (.standardVersion (versionParse [49])),
        some (.blockIndex [25]), some (.block (.empty 0 25))] p ∧
    parserParse ⟨fyamlOf (some [some 25]), .stc, 4096⟩ 100 p ≠ .fault .vector := by
  have fit : ∀ p : Parser MemStream Unit,
      (!(decide (p.state = .block) && decide p.block.Outgrown)) = true →
      BlocksFit ⟨fyamlOf (some [some 25]), .stc, 4096⟩ p :=
    fun p fit state outgrown => by simp [state, outgrown] at fit
  obtain ⟨p, run, calls⟩ := Outcome.Calls.of_results
    (parserStep ⟨fyamlOf (some [some 25]), .stc, 4096⟩ 100) 100 _ fit
    (parserCreate 0 (streamFromMemory (indexedFile [91, 50, 53, 93]))) 4
    [some (.asdfVersion (versionParse [49])), some (.standardVersion (versionParse [49])),
      some (.blockIndex [25]), some (.block (.empty 0 25))] (by decide +kernel)
  have good : MemStream.Good (streamFromMemory (indexedFile [91, 50, 53, 93])) :=
    ⟨by decide, by decide⟩
  exact ⟨p, calls, (parser_vectors (fun _ _ => rfl) good calls fun t turns =>
    fit t (Outcome.check_of_callMany run (by decide +kernel) turns)).1⟩

/-- A block behind an index that is cut short by an item that is no integer, and
the call after a block that an adopted index has no entry for. -/
theorem block_vectors_overrun : VecPolicy.stc.Exact ∧
    (∃ results, ∃ p : Parser MemStream Unit,
      Outcome.Calls (parserStep ⟨fyamlOf (some [none]), .stc, 4096⟩ 100) 100 (fun _ => True)
        (parserCreate 0 (streamFromMemory (indexedFile [91, 97, 93]))) results p ∧
      parserParse ⟨fyamlOf (some [none]), .stc, 4096⟩ 100 p = .fault .vector) ∧
    (∃ results, ∃ p : Parser MemStream Unit,
      Outcome.Calls (parserStep ⟨fyamlOf (some []), .stc, 4096⟩ 100) 100 (fun _ => True)
        (parserCreate 0 (streamFromMemory (indexedFile [91, 93]))) results p ∧
      parserParse ⟨fyamlOf (some []), .stc, 4096⟩ 100 p = .fault .vector) := by
  refine ⟨fun _ _ => rfl, ?_, ?_⟩
  · obtain ⟨p, run, calls⟩ := Outcome.Calls.of_results
      (parserStep ⟨fyamlOf (some [none]), .stc, 4096⟩ 100) 100 (fun _ => true)
      (fun _ _ => trivial) (parserCreate 0 (streamFromMemory (indexedFile [91, 97, 93]))) 3
      [some (.asdfVersion (versionParse [49])), some (.standardVersion (versionParse [49])),
        some .none] (by decide +kernel)
    exact ⟨_, p, calls, Outcome.loop_of_callMany run (by decide +kernel)⟩
  · obtain ⟨p, run, calls⟩ := Outcome.Calls.of_results
      (parserStep ⟨fyamlOf (some []), .stc, 4096⟩ 100) 100 (fun _ => true)
      (fun _ _ => trivial) (parserCreate 0 (streamFromMemory (indexedFile [91, 93]))) 4
      [some (.asdfVersion (versionParse [49])), some (.standardVersion (versionParse [49])),
        some (.blockIndex []), some (.block (.empty 0 25))] (by decide +kernel)
    exact ⟨_, p, calls, Outcome.loop_of_callMany run (by decide +kernel)⟩

end LibAsdf
