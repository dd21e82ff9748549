import LibAsdf.Parser.BlockVectors
import LibAsdf.Parser.Reading

/-!
# Reading the blocks of a file

What the states from the tree's end on do on a stream that shows all that
comes, with a block index and without one.

* `WithoutIndex`, `WithIndex`: the block table before the next block;
* `parseBlock_reads`, `blocks_say`: the blocks, one by one;
* `parseBlockIndex_reads`: the search for the index, and what it leaves.
-/

namespace LibAsdf

open StreamOps ParserStream ReadContent WholeRead

/-! ## One block -/

section OneBlock

variable {σ φ : Type} [ParserStream σ] [WholeRead σ] {p : Parser σ φ} {done rest : Bytes}

theorem BlockSection.image_length (b : BlockSection) :
    b.image.length = blockHeaderFullSize + b.header.allocated b.stored.data.length :=
  length_blockImage b.compression b.fits.checksum

theorem BlockSection.begins (b : BlockSection) (rest : Bytes) : blockMagic <+: b.image ++ rest := by
  simp only [image, blockImage, List.append_assoc]
  exact List.prefix_append _ _

/-- What a header reads as, in place. -/
theorem BlockSection.readAt_image (b : BlockSection) (outBlock : BlockInfo) (pos : Nat)
    (rest : Bytes) (small : b.header.allocated b.stored.data.length < 2 ^ 64) :
    outBlock.readAt pos (b.image ++ rest) = b.info outBlock.index pos := by
  obtain ⟨size, reads⟩ := readAt_blockImage b.fits b.compression small outBlock pos rest
  have index : (outBlock.readAt pos (b.image ++ rest)).index = outBlock.index := rfl
  have headerSize : (outBlock.readAt pos (b.image ++ rest)).header.headerSize = blockHeaderSize := size
  rw [BlockSection.image] at index headerSize ⊢
  rw [BlockSection.info, BlockHeader.allocated_eq_max]
  generalize outBlock.readAt pos (blockImage b.header b.stored ++ rest) = info at *
  obtain ⟨i, headerPos, dataPos, header⟩ := info
  obtain ⟨h₁, h₂, h₃, h₄, h₅, h₆, h₇⟩ := header
  obtain ⟨rfl, rfl, rfl, rfl, rfl, rfl, rfl, rfl⟩ := reads
  simp only at index headerSize
  rw [index, headerSize]

/-- A block's header is read, and its data is to come. -/
theorem blockInfoRead_stands {s : σ} {b : BlockSection} (h : Stands s done (b.image ++ rest))
    (seen : inView s = (b.image ++ rest).length) (outBlock : BlockInfo) :
    ∃ t, blockInfoRead outBlock s = .ret (true, b.info outBlock.index done.length, t) ∧
      Stands t (done ++ b.image.take blockHeaderFullSize)
        (b.image.drop blockHeaderFullSize ++ rest) := by
  have length := b.image_length
  have small := h.small
  have full : blockHeaderFullSize = 54 := rfl
  have header : blockHeaderSize = 48 := rfl
  simp only [List.length_append] at small seen
  have fits : b.header.allocated b.stored.data.length < 2 ^ 64 := by
    have : offMax < 2 ^ 64 := by decide
    omega
  have size : headerSizeOf (b.image ++ rest) = blockHeaderSize :=
    (readAt_blockImage b.fits b.compression fits outBlock done.length rest).1
  have ahead := h.coming_eq
  obtain ⟨t, run, moved⟩ := blockInfoRead_moves h.sane (by omega) h.calm
    (by rw [ahead, size]) (by rw [ahead, size, List.length_append]; omega)
    (by rw [ahead, size, h.pos_eq]; omega) outBlock
  rw [ahead, h.pos_eq, b.readAt_image outBlock _ _ fits] at run
  rw [ahead, size] at moved
  refine ⟨t, run, ?_⟩
  have part : (b.image.take blockHeaderFullSize).length = 6 + blockHeaderSize := by
    rw [List.length_take]
    omega
  refine Stands.moved ?_ (part ▸ moved)
  rw [← List.append_assoc, List.take_append_drop]
  exact h

/-- What is behind the header is passed over. -/
theorem skipBlock_stands {b : BlockSection} (h : Stands p.stream
      (done ++ b.image.take blockHeaderFullSize) (b.image.drop blockHeaderFullSize ++ rest))
    (idx : Nat) : ∃ t, skipBlock p (b.info idx done.length) =
        .ret (.event (.block (b.info idx done.length)), { p with stream := t }) ∧
      Stands t (done ++ b.image) rest := by
  have length := b.image_length
  have small := h.small
  have whole : done ++ b.image.take blockHeaderFullSize ++
      (b.image.drop blockHeaderFullSize ++ rest) = (done ++ b.image) ++ rest := by
    rw [List.append_assoc, ← List.append_assoc (b.image.take _), List.take_append_drop,
      List.append_assoc]
  have front : (b.image.take blockHeaderFullSize).length = blockHeaderFullSize := by
    rw [List.length_take]
    omega
  rw [whole] at small
  simp only [List.length_append] at small
  have streamed : (b.info idx done.length).header.streamed = false := b.whole
  have allocated : (b.info idx done.length).header.allocatedSize =
      b.header.allocated b.stored.data.length := rfl
  have onFile := h.onFile
  rw [whole] at onFile
  obtain ⟨t, sought, stands⟩ := seek_stands onFile
    (b.header.allocated b.stored.data.length) .cur (by
      rw [seekPlace, h.pos_eq]
      simp only [List.length_append, front, length]
      omega)
  refine ⟨t, ?_, stands⟩
  have fits : ¬ b.header.allocated b.stored.data.length > offMax := by omega
  rw [skipBlock, seekPastBlock, streamed, allocated]
  simp only [Bool.not_false, Bool.true_and, decide_eq_true_eq, if_neg fits, Bool.false_eq_true,
    if_false]
  rw [sought]
  rfl

end OneBlock

/-! ## The block table -/

/-- The table before block `k`, where no index was found. -/
structure WithoutIndex (k : Nat) (b : BlockTable) : Prop where
  found_eq : b.found = k
  unmarked : b.hasIndex = false
  full : b.index.size = b.index.capacity
  room : k ≤ b.index.capacity

/-- The table before block `k`, where the index names these blocks. -/
structure WithIndex (infos : List BlockInfo) (k : Nat) (b : BlockTable) : Prop where
  found_eq : b.found = k
  marked : b.hasIndex = true
  listed : b.index.items = infos.map fun info => .ofInt info.headerPos
  room : infos.length ≤ b.index.capacity
  numbered : b.infos.items.map BlockInfo.index = List.range infos.length
  first : k = 0 → b.count = infos.length ∧ b.infos.items.head? = infos.head?
  later : k ≠ 0 → b.count = k

def TableAt (indexed : Bool) (infos : List BlockInfo) (k : Nat) (b : BlockTable) : Prop :=
  if indexed then WithIndex infos k b else WithoutIndex k b

theorem withoutIndex_fresh : WithoutIndex 0 ⟨Vec.empty, Vec.empty, false, 0, 0⟩ :=
  ⟨rfl, rfl, rfl, Nat.le_refl _⟩

section Counting

variable {σ φ : Type} {env : Env φ} {p : Parser σ φ} {infos : List BlockInfo} {info : BlockInfo}
  {k : Nat}

theorem setAt_of_lt {α : Type} {v : Vec α} {idx : Nat} (lt : idx < v.size) (a : α) :
    v.setAt idx a = .ret { v with items := v.items.set idx a } := if_pos lt

theorem countBlock_withoutIndex (exact : env.vec.Exact) (h : WithoutIndex k p.block) {place : Nat}
    (header : info.headerPos = (place : Nat)) (small : place ≤ offMax) :
    ∃ table, countBlock env p info = .ret { p with block := table } ∧ WithoutIndex (k + 1) table := by
  have grown : Grown p.block (p.block.grownIndex env.vec) :=
    grownIndex_grown exact (by rw [h.found_eq]; exact h.room) (.inl h.full)
  rw [countBlock, if_pos (by rw [header]; exact Int.ofNat_le.mpr small)]
  generalize p.block.grownIndex env.vec = index at grown ⊢
  have inside := grown.size_lt
  have size : index.size = index.capacity := by
    cases grown with
    | room inside => exact h.full
    | resized n full all more least =>
      change (_ ++ List.replicate _ _).length = n
      rw [List.length_append, List.length_replicate]
      change p.block.index.size + (n - p.block.index.size) = n
      omega
  rw [setAt_of_lt inside]
  refine ⟨_, rfl, ⟨congrArg (· + 1) h.found_eq, h.unmarked, ?_, ?_⟩⟩
  · change (List.set _ _ _).length = _
    rw [List.length_set]
    exact size
  · change k + 1 ≤ index.capacity
    rw [← size, ← h.found_eq]
    exact inside

theorem countBlock_withIndex (h : WithIndex infos k p.block) (entry : infos[k]? = some info)
    {place : Nat} (header : info.headerPos = (place : Nat)) (small : place ≤ offMax) :
    ∃ table, countBlock env p info = .ret { p with block := table } ∧
      WithIndex infos (k + 1) table := by
  have inside := (List.getElem?_eq_some_iff.mp entry).1
  have grown : p.block.grownIndex env.vec = p.block.index := by
    have := h.room
    have := h.found_eq
    rw [BlockTable.grownIndex, if_neg (by omega)]
  have size : p.block.index.size = infos.length := by
    rw [Vec.size, h.listed, List.length_map]
  have same : p.block.index.items.set k (.ofInt info.headerPos) = p.block.index.items := by
    rw [h.listed]
    apply List.ext_getElem?
    intro i
    rw [List.getElem?_set]
    split
    · rename_i eq
      subst eq
      rw [List.length_map, if_pos inside, List.getElem?_map, entry]
      rfl
    · rfl
  refine ⟨{ p.block with found := k + 1, count := k + 1 }, ?_, ⟨rfl, h.marked, h.listed, h.room,
    h.numbered, fun zero => absurd zero (Nat.succ_ne_zero k), fun _ => rfl⟩⟩
  rw [countBlock, if_pos (by rw [header]; exact Int.ofNat_le.mpr small), grown, h.found_eq,
    setAt_of_lt (by rw [size]; exact inside), same]
  simp only [Outcome.ret_bind]
  rfl

end Counting

/-! ## The next block -/

section NextBlock

variable {σ φ : Type} [ParserStream σ] [WholeRead σ] {env : Env φ} {p : Parser σ φ}
  {b : BlockSection} {done rest : Bytes} {infos : List BlockInfo} {k : Nat}

/-- A parser that has read one more block. -/
def Parser.pushed (env : Env φ) (p : Parser σ φ) (stream : σ) (info : BlockInfo) : Parser σ φ :=
  { p with
    stream := stream
    block := { p.block with infos := p.block.infos.push env.vec info } }

theorem readNewBlock_stands (env : Env φ) (h : Stands p.stream done (b.image ++ rest))
    (seen : inView p.stream = (b.image ++ rest).length) (info : BlockInfo) :
    ∃ t, readNewBlock env p info = .ret (true, b.info info.index done.length,
        p.pushed env t (b.info info.index done.length)) ∧
      Stands t (done ++ b.image.take blockHeaderFullSize)
        (b.image.drop blockHeaderFullSize ++ rest) := by
  obtain ⟨t, run, stands⟩ := blockInfoRead_stands h seen info
  refine ⟨t, ?_, stands⟩
  rw [readNewBlock, run]
  rfl

/-- The next block is found behind its gap. -/
theorem parseNewBlock_reads (env : Env φ) (h : Stands p.stream done (b.bytes ++ rest)) :
    ∃ t, parseNewBlock env p = .ret (some (b.info p.block.found (done ++ b.gap).length),
        p.pushed env t (b.info p.block.found (done ++ b.gap).length)) ∧
      Stands t (done ++ b.gap ++ b.image.take blockHeaderFullSize)
        (b.image.drop blockHeaderFullSize ++ rest) := by
  rw [BlockSection.bytes, List.append_assoc] at h
  have held : b.gap ++ (b.image ++ rest) ≠ [] := by
    intro empty
    have length := b.image_length
    rw [(List.append_eq_nil_iff.mp (List.append_eq_nil_iff.mp empty).2).1] at length
    exact absurd length (by rw [List.length_nil, blockHeaderFullSize]; omega)
  obtain ⟨v, t, run, stands, seen, shown, -⟩ := peek_stands h
    (show blockMagic.length ≤ offMax by decide)
  obtain ⟨v, rfl, shows⟩ := shown.some_of_ne held
  have magic := isBlockMagic_shown shows
  by_cases gap : b.gap = []
  · rw [gap, List.nil_append] at stands seen magic
    rw [decide_eq_true (b.begins rest)] at magic
    obtain ⟨u, read, last⟩ := readNewBlock_stands env (p := { p with stream := t }) stands
      seen (.blank p.block.found)
    rw [gap, List.append_nil]
    refine ⟨u, ?_, last⟩
    rw [parseNewBlock, run, Outcome.ret_bind]
    dsimp only
    rw [readBlockHere, magic, Outcome.ret_bind, if_pos rfl, read]
    rfl
  · obtain ⟨more, begins⟩ := b.begins rest
    have found : LibAsdf.scanTokens (b.gap ++ (b.image ++ rest)) [blockMagic] =
        some (b.gap.length, 0) := by
      rw [← begins, ← List.append_assoc]
      refine firstMatch_append b.quiet (fun token member => ?_) more
      rw [List.mem_singleton.mp member, List.length_append]
    rw [decide_eq_false (not_prefix_of_gap found gap List.mem_cons_self)] at magic
    obtain ⟨u, scanned, stands', -, seen'⟩ := scanTokens_stands (p := { p with stream := t })
      [.blockMagic] .blockMagic stands (by decide) (by
        rw [← begins, List.length_append, List.length_append]
        exact Nat.le_trans (Nat.le_add_right 4 _) (Nat.le_add_left _ _)) found rfl
    obtain ⟨w, read, last⟩ := readNewBlock_stands env (p := { p with stream := u }) stands'
      seen' (.blank p.block.found)
    refine ⟨w, ?_, last⟩
    rw [parseNewBlock, run, Outcome.ret_bind]
    dsimp only
    rw [readBlockHere, magic, Outcome.ret_bind]
    simp only [Bool.false_eq_true, if_false]
    rw [Outcome.pure_eq, Outcome.ret_bind]
    simp only [Bool.false_eq_true, if_false]
    rw [scanForBlock, scanned]
    simp only [Outcome.ret_bind, Outcome.pure_eq, Option.isSome_some]
    rw [read]
    rfl

/-- The block that an entry of the index names. -/
theorem validateBlock_reads (h : OnFile p.stream (done ++ (b.image ++ rest))) (idx : Nat)
    (entry : p.block.index.items[idx]? = some (.ofInt (done.length : Nat))) (small : idx ≤ offMax)
    (blockOut : BlockInfo) :
    ∃ t, validateBlock p idx blockOut =
        .ret (true, b.info blockOut.index done.length, { p with stream := t }) ∧
      Stands t (done ++ b.image.take blockHeaderFullSize)
        (b.image.drop blockHeaderFullSize ++ rest) := by
  obtain ⟨t, sought, stands⟩ := trySeek_set h
  have place : (Int64.ofInt (done.length : Nat)).toInt = (done.length : Nat) := by
    have upper := stands.small
    rw [List.length_append] at upper
    simp only [offMax] at upper
    exact Int64.toInt_ofInt_of_le (by omega) (by omega)
  obtain ⟨v, u, run, stands', seen, shown, -⟩ := peek_stands stands
    (show blockMagic.length ≤ offMax by decide)
  obtain ⟨v, rfl, shows⟩ := shown.some_of_ne (by
    obtain ⟨more, begins⟩ := b.begins rest
    rw [← begins]
    exact List.cons_ne_nil _ _)
  have magic := isBlockMagic_shown shows
  rw [decide_eq_true (b.begins rest)] at magic
  obtain ⟨w, read, last⟩ := blockInfoRead_stands stands' seen blockOut
  have inside : ¬ (idx ≥ p.block.index.size ∨ idx > offMax) := by
    have := (List.getElem?_eq_some_iff.mp entry).1
    change idx < p.block.index.size at this
    omega
  refine ⟨w, ?_, last⟩
  rw [validateBlock, if_neg inside, Vec.at, entry]
  simp only [Outcome.ret_bind]
  rw [place, sought, Outcome.ret_bind]
  dsimp only
  rw [if_neg (by decide), run, Outcome.ret_bind]
  dsimp only
  rw [magic, Outcome.ret_bind, if_neg (by decide), read]
  rfl

/-- A block that the index names is read where it is. -/
theorem blockFromIndex_reads (h : Stands p.stream done (b.bytes ++ rest))
    (table : WithIndex infos k p.block) (entry : infos[k]? = some (b.info k (done ++ b.gap).length))
    (small : k ≤ offMax) :
    ∃ t table, blockFromIndex p k = .ret (some (b.info k (done ++ b.gap).length),
        { p with stream := t, block := table }) ∧
      Stands t (done ++ b.gap ++ b.image.take blockHeaderFullSize)
        (b.image.drop blockHeaderFullSize ++ rest) ∧ WithIndex infos k table := by
  have inside := (List.getElem?_eq_some_iff.mp entry).1
  have onFile : OnFile p.stream ((done ++ b.gap) ++ (b.image ++ rest)) := by
    have whole := h.onFile
    rw [BlockSection.bytes, List.append_assoc b.gap, ← List.append_assoc done] at whole
    exact whole
  have sizes := congrArg List.length table.numbered
  rw [List.length_map, List.length_range] at sizes
  obtain ⟨maybe, listed⟩ : ∃ maybe, p.block.infos.items[k]? = some maybe :=
    ⟨_, List.getElem?_eq_getElem (sizes ▸ inside)⟩
  by_cases zero : k = 0
  · -- The first block was read with the index
    subst zero
    obtain ⟨count, head⟩ := table.first rfl
    have same : maybe = b.info 0 (done ++ b.gap).length := by
      rw [List.head?_eq_getElem?, List.head?_eq_getElem?, listed, entry] at head
      exact Option.some.inj head
    subst same
    have split : (done ++ b.gap) ++ (b.image ++ rest) =
        ((done ++ b.gap) ++ b.image.take blockHeaderFullSize) ++
          (b.image.drop blockHeaderFullSize ++ rest) := by
      rw [List.append_assoc (done ++ b.gap), ← List.append_assoc (b.image.take _),
        List.take_append_drop]
    rw [split] at onFile
    obtain ⟨t, sought, stands⟩ := trySeek_set onFile
    have place : ((done ++ b.gap) ++ b.image.take blockHeaderFullSize).length =
        (done ++ b.gap).length + blockHeaderFullSize := by
      have length := b.image_length
      rw [List.length_append, List.length_take]
      omega
    refine ⟨t, p.block, ?_, stands, table⟩
    have data : (b.info 0 (done ++ b.gap).length).dataPos =
        ((done ++ b.gap).length + blockHeaderFullSize : Nat) := rfl
    rw [place] at sought
    rw [blockFromIndex, if_neg (Nat.not_lt_zero _), Vec.at, listed]
    simp only [Outcome.ret_bind]
    rw [if_pos (by rw [count]; exact inside), data, if_neg (by
      rw [blockHeaderFullSize]
      omega), sought]
    rfl
  · obtain ⟨t, read, stands⟩ := validateBlock_reads onFile k (by
      rw [table.listed, List.getElem?_map, entry]
      rfl) small maybe
    have index : maybe.index = k := by
      have numbered := congrArg (·[k]?) table.numbered
      simp only [List.getElem?_map, listed, List.getElem?_range inside, Option.map_some] at numbered
      exact Option.some.inj numbered
    rw [index] at read
    refine ⟨t, { p.block with infos := { p.block.infos with
      items := p.block.infos.items.set k (b.info k (done ++ b.gap).length) } }, ?_, stands,
      table.found_eq, table.marked, table.listed, table.room, ?_, fun eq => absurd eq zero,
      table.later⟩
    · rw [blockFromIndex, if_neg (Nat.not_lt_of_le small), Vec.at, listed]
      simp only [Outcome.ret_bind]
      rw [if_neg (by rw [table.later zero]; exact Nat.lt_irrefl k), read]
      simp only [Outcome.ret_bind]
      rw [setAt_of_lt (show k < p.block.infos.size by rw [Vec.size, sizes]; exact inside)]
      rfl
    · rw [List.map_set, table.numbered]
      apply List.ext_getElem?
      intro i
      rw [List.getElem?_set]
      split
      · rename_i eq
        subst eq
        rw [if_pos (by rw [List.length_range]; exact inside), List.getElem?_range inside]
        rfl
      · rfl

theorem parseBlockInfo_reads {indexed : Bool} (env : Env φ) (h : Stands p.stream done (b.bytes ++ rest))
    (table : TableAt indexed infos k p.block)
    (entry : infos[k]? = some (b.info k (done ++ b.gap).length)) (small : k ≤ offMax) :
    ∃ t table, parseBlockInfo env p = .ret (some (b.info k (done ++ b.gap).length),
        { p with stream := t, block := table }) ∧
      Stands t (done ++ b.gap ++ b.image.take blockHeaderFullSize)
        (b.image.drop blockHeaderFullSize ++ rest) ∧ TableAt indexed infos k table := by
  cases indexed with
  | false =>
    have table : WithoutIndex k p.block := table
    obtain ⟨t, run, stands⟩ := parseNewBlock_reads env h
    rw [table.found_eq] at run
    refine ⟨t, (p.pushed env t (b.info k (done ++ b.gap).length)).block, ?_, stands,
      show WithoutIndex k _ from ⟨table.found_eq, table.unmarked, table.full, table.room⟩⟩
    rw [parseBlockInfo, table.unmarked]
    simp only [Bool.false_and, Bool.false_eq_true, if_false]
    exact run
  | true =>
    have table : WithIndex infos k p.block := table
    have inside := (List.getElem?_eq_some_iff.mp entry).1
    obtain ⟨t, table', run, stands, kept⟩ := blockFromIndex_reads h table entry small
    refine ⟨t, table', ?_, stands, kept⟩
    have looks : (p.block.hasIndex && decide (p.block.found < p.block.index.size)) = true := by
      rw [table.marked, table.found_eq, Vec.size, table.listed, List.length_map, Bool.true_and,
        decide_eq_true inside]
    rw [parseBlockInfo]
    simp only [looks, if_true]
    rw [table.found_eq, run]
    rfl

/-- A block is read, with its data, whether or not there is an index. -/
theorem parseBlock_reads {indexed : Bool} (exact : env.vec.Exact)
    (h : Stands p.stream done (b.bytes ++ rest)) (table : TableAt indexed infos k p.block)
    (entry : infos[k]? = some (b.info k (done ++ b.gap).length)) (few : k < done.length) :
    ∃ t table, parseBlock env p = .ret (.event (.block (b.info k (done ++ b.gap).length)),
        { p with stream := t, block := table }) ∧
      Stands t (done ++ b.bytes) rest ∧ TableAt indexed infos (k + 1) table := by
  have small := h.small
  have found : p.block.found = k := by
    cases indexed with
    | false => exact WithoutIndex.found_eq table
    | true => exact WithIndex.found_eq table
  rw [List.length_append, BlockSection.bytes, List.length_append, List.length_append] at small
  obtain ⟨t, table', run, stands, kept⟩ :=
    parseBlockInfo_reads env h table entry (by omega)
  obtain ⟨counted, count, last⟩ : ∃ counted,
      countBlock env { p with stream := t, block := table' } (b.info k (done ++ b.gap).length) =
        .ret { p with stream := t, block := counted } ∧ TableAt indexed infos (k + 1) counted := by
    have place : (done ++ b.gap).length ≤ offMax := by
      rw [List.length_append]
      omega
    cases indexed with
    | false =>
      exact countBlock_withoutIndex (p := { p with stream := t, block := table' }) exact kept rfl place
    | true =>
      exact countBlock_withIndex (p := { p with stream := t, block := table' }) kept entry rfl place
  obtain ⟨u, skipped, stands'⟩ := skipBlock_stands
    (p := { p with stream := t, block := counted }) stands k
  refine ⟨u, counted, ?_, ?_, last⟩
  · rw [parseBlock, if_neg (by rw [found]; omega), run]
    simp only [Outcome.ret_bind]
    rw [count, Outcome.ret_bind, skipped]
  · rw [BlockSection.bytes, ← List.append_assoc]
    exact stands'

theorem getElem?_of_drop {α : Type} {l : List α} {a : α} {as : List α} {n : Nat}
    (h : l.drop n = a :: as) : l[n]? = some a := by
  have head := congrArg (·[0]?) h
  simpa using head

/-- The blocks are read one by one. -/
theorem blocks_say {indexed : Bool} (exact : env.vec.Exact) {blocks : List BlockSection} :
    ∀ {p : Parser σ φ} {done : Bytes} {k : Nat}, p.state = .block →
      Stands p.stream done (blocksBytes blocks ++ rest) → TableAt indexed infos k p.block →
      infos.drop k = blockInfos done.length k blocks → k ≤ infos.length → k < done.length →
      ∃ t table, Outcome.Says (parserStep env) p
          ((blockInfos done.length k blocks).map fun info => some (.block info))
          { p with stream := t, block := table } ∧
        Stands t (done ++ blocksBytes blocks) rest ∧ TableAt indexed infos infos.length table ∧
        infos.length < (done ++ blocksBytes blocks).length := by
  induction blocks with
  | nil =>
    intro p done k _ h table left le few
    have all : k = infos.length := Nat.le_antisymm le (List.drop_eq_nil_iff.mp left)
    subst all
    refine ⟨p.stream, p.block, .refl p, ?_, table, ?_⟩
    · rw [show blocksBytes [] = [] from rfl, List.append_nil]
      exact h
    · rw [show blocksBytes [] = [] from rfl, List.append_nil]
      exact few
  | cons b blocks ih =>
    intro p done k state h table left le few
    have bytes : blocksBytes (b :: blocks) = b.bytes ++ blocksBytes blocks := List.flatMap_cons
    rw [bytes, List.append_assoc] at h
    rw [blockInfos, ← List.length_append] at left ⊢
    have entry := getElem?_of_drop left
    obtain ⟨t, table', run, stands, kept⟩ := parseBlock_reads exact h table entry few
    have onward : infos.drop (k + 1) = blockInfos (done ++ b.bytes).length (k + 1) blocks := by
      rw [← List.drop_drop, left, List.drop_one, List.tail_cons, List.length_append]
    have longer : k + 1 < (done ++ b.bytes).length := by
      have length := b.image_length
      have full : blockHeaderFullSize = 54 := rfl
      rw [BlockSection.bytes, List.length_append, List.length_append]
      omega
    obtain ⟨u, table'', more, last⟩ := ih (p := { p with stream := t, block := table' }) state stands
      kept onward (List.getElem?_eq_some_iff.mp entry).1 longer
    rw [← List.length_append, List.map_cons, bytes, ← List.append_assoc]
    refine ⟨u, table'', .call ⟨0, fun fuel _ => ?_⟩ more, last⟩
    have step : parserStep env fuel p = parseBlock env p >>= afterHandler := by
      rw [parserStep, state]
    rw [step, run]
    rfl

/-- Behind the last block nothing is found. -/
theorem parseBlock_ends {indexed : Bool} (env : Env φ) (h : Stands p.stream done rest)
    (quiet : LibAsdf.scanTokens rest [blockMagic] = none)
    (table : TableAt indexed infos infos.length p.block) (few : infos.length < done.length) :
    ∃ t table, parseBlock env p =
        .ret (.continue, { p with stream := t, state := .end, block := table }) ∧
      OnFile t (done ++ rest) := by
  have small := h.small
  rw [List.length_append] at small
  have found : p.block.found = infos.length := by
    cases indexed with
    | false => exact WithoutIndex.found_eq table
    | true => exact WithIndex.found_eq table
  have looks : (p.block.hasIndex && decide (p.block.found < p.block.index.size)) = false := by
    cases indexed with
    | false => rw [WithoutIndex.unmarked table, Bool.false_and]
    | true =>
      rw [found, Vec.size, WithIndex.listed table, List.length_map,
        decide_eq_false (Nat.lt_irrefl _), Bool.and_false]
  obtain ⟨v, t, run, stands, -, shown, -⟩ := peek_stands h
    (show blockMagic.length ≤ offMax by decide)
  have magic : isBlockMagic v = .ret false := by
    cases v with
    | none => rfl
    | some v =>
      rw [isBlockMagic_shown shown, decide_eq_false fun begins => ?_]
      refine firstMatch_eq_none.mp quiet 0 0 ⟨?_, blockMagic, rfl, begins⟩
      exact Nat.lt_of_lt_of_le (by decide) begins.length_le
  obtain ⟨u, scanned, onFile⟩ := scanTokens_lost (p := { p with stream := t })
    [.blockMagic] stands quiet
  refine ⟨u, { p.block with index := p.block.index.shrinkToFit env.vec }, ?_, onFile⟩
  rw [parseBlock, if_neg (by rw [found]; omega), parseBlockInfo]
  simp only [looks, Bool.false_eq_true, if_false]
  rw [parseNewBlock, run]
  simp only [Outcome.ret_bind]
  rw [readBlockHere, magic]
  simp only [Outcome.ret_bind, Bool.false_eq_true, if_false, Outcome.pure_eq]
  rw [scanForBlock, scanned]
  rfl

end NextBlock

/-! ## Where the blocks are -/

section Places

variable {blocks : List BlockSection} {infos : List BlockInfo} {front tail : Bytes}

theorem blockInfos_length (blocks : List BlockSection) (pos idx : Nat) :
    (blockInfos pos idx blocks).length = blocks.length := by
  induction blocks generalizing pos idx with
  | nil => rfl
  | cons b blocks ih => rw [blockInfos, List.length_cons, ih, List.length_cons]

theorem length_le_blocksBytes (blocks : List BlockSection) :
    blocks.length ≤ (blocksBytes blocks).length := by
  induction blocks with
  | nil => exact Nat.le_refl _
  | cons b blocks ih =>
    have length := b.image_length
    have full : blockHeaderFullSize = 54 := rfl
    rw [blocksBytes, List.flatMap_cons, List.length_append, List.length_cons, BlockSection.bytes,
      List.length_append]
    change _ ≤ _ + _ + (blocksBytes blocks).length
    omega

/-- A block of the file in its place. -/
theorem exists_of_blockInfos {i idx : Nat} {info : BlockInfo} (tail : Bytes)
    (entry : (blockInfos front.length idx blocks)[i]? = some info) :
    ∃ (b : BlockSection) (before after : Bytes),
      front ++ (blocksBytes blocks ++ tail) = before ++ (b.image ++ after) ∧
        info = b.info (idx + i) before.length := by
  induction blocks generalizing front idx i with
  | nil => cases entry
  | cons b blocks ih =>
    have bytes : front ++ (blocksBytes (b :: blocks) ++ tail) =
        (front ++ b.bytes) ++ (blocksBytes blocks ++ tail) := by
      rw [blocksBytes, List.flatMap_cons, List.append_assoc, List.append_assoc]
      rfl
    rw [blockInfos] at entry
    cases i with
    | zero =>
      refine ⟨b, front ++ b.gap, blocksBytes blocks ++ tail, ?_, ?_⟩
      · rw [bytes, BlockSection.bytes, ← List.append_assoc front, List.append_assoc (front ++ b.gap)]
      · rw [List.getElem?_cons_zero] at entry
        rw [List.length_append]
        exact (Option.some.inj entry).symm
    | succ i =>
      rw [List.getElem?_cons_succ, ← List.length_append] at entry
      obtain ⟨c, before, after, split, eq⟩ := ih entry
      refine ⟨c, before, after, bytes.trans split, ?_⟩
      rw [eq, Nat.add_right_comm, Nat.add_assoc]

theorem headerPos_of_head {pos idx : Nat} {info : BlockInfo}
    (h : (blockInfos pos idx blocks).head? = some info) :
    ∃ place ≥ pos, info.headerPos = (place : Nat) ∧
      place + blockHeaderFullSize ≤ pos + (blocksBytes blocks).length := by
  cases blocks with
  | nil => cases h
  | cons b blocks =>
    cases h
    refine ⟨pos + b.gap.length, Nat.le_add_right _ _, rfl, ?_⟩
    rw [blocksBytes, List.flatMap_cons, BlockSection.bytes]
    simp only [List.length_append, b.image_length]
    omega

/-- The entries of the index are as far apart as the headers are long. -/
theorem entriesSpaced_blockInfos (pos idx : Nat)
    (small : pos + (blocksBytes blocks).length ≤ offMax) :
    entriesSpaced ((blockInfos pos idx blocks).map fun info => .ofInt info.headerPos) = true := by
  induction blocks generalizing pos idx with
  | nil => rfl
  | cons b blocks ih =>
    have bytes : (blocksBytes (b :: blocks)).length = b.bytes.length + (blocksBytes blocks).length := by
      rw [blocksBytes, List.flatMap_cons, List.length_append]
      rfl
    have more := ih (pos + b.bytes.length) (idx + 1) (by omega)
    rw [blockInfos]
    cases next : blockInfos (pos + b.bytes.length) (idx + 1) blocks with
    | nil => rfl
    | cons info infos =>
      rw [next] at more
      obtain ⟨place, le, header, ends⟩ := headerPos_of_head (congrArg List.head? next)
      have size : b.gap.length + blockHeaderFullSize ≤ b.bytes.length := by
        rw [BlockSection.bytes, List.length_append, b.image_length]
        omega
      have full : blockHeaderFullSize = 54 := rfl
      have limit : offMax = 2 ^ 63 - 1 := rfl
      rw [List.map_cons] at more
      rw [List.map_cons, List.map_cons, entriesSpaced, more, Bool.and_true]
      have first : (Int64.ofInt (b.info idx (pos + b.gap.length)).headerPos).toInt =
          ((pos + b.gap.length : Nat) : Int) := Int64.toInt_ofInt_of_le
        (show -2 ^ 63 ≤ ((pos + b.gap.length : Nat) : Int) by omega)
        (show ((pos + b.gap.length : Nat) : Int) < 2 ^ 63 by omega)
      have second : (Int64.ofInt info.headerPos).toInt = (place : Int) := by
        rw [header]
        exact Int64.toInt_ofInt_of_le (by omega) (by omega)
      have apart : ¬ Int64.ofInt info.headerPos ≤ Int64.ofInt (b.info idx (pos + b.gap.length)).headerPos := by
        rw [Int64.le_iff_toInt_le, first, second]
        omega
      rw [first, second, decide_eq_false apart, Bool.false_or, Bool.not_eq_true',
        decide_eq_false_iff_not]
      omega

theorem numbered_indexInfos {n : Nat} {first last : BlockInfo} (some : 0 < n)
    (head : first.index = 0) (ends : last.index = n - 1) :
    (indexInfos n first last).map BlockInfo.index = List.range n := by
  obtain ⟨m, rfl⟩ : ∃ m, n = m + 1 := ⟨n - 1, by omega⟩
  have blanks : BlockInfo.index ∘ BlockInfo.blank = id := rfl
  rw [indexInfos, List.map_cons, head, List.range_eq_range', List.range'_succ]
  refine congrArg (0 :: ·) ?_
  cases m with
  | zero => rfl
  | succ m =>
    rw [if_pos (by omega), List.map_append, List.map_map, blanks, List.map_id, List.map_singleton,
      ends, List.range'_1_concat]
    congr 2
    omega

end Places

/-! ## The block index -/

section Index

variable {σ φ : Type} [ParserStream σ] [WholeRead σ] {env : Env φ} {p : Parser σ φ}
  {blocks : List BlockSection} {infos : List BlockInfo} {front tail done rest bytes : Bytes}

theorem Parser.isSeekable_of_onFile (h : OnFile p.stream bytes) : p.isSeekable = true :=
  WholeRead.isSeekable p.stream h.fit

/-- An entry of an index of the blocks. -/
theorem validateEntry_reads (h : OnFile p.stream (front ++ (blocksBytes blocks ++ tail)))
    (listed : p.block.index.items =
      (blockInfos front.length 0 blocks).map fun info => .ofInt info.headerPos) (idx : Nat)
    (inside : idx < blocks.length) :
    ∃ t info, validateBlock p idx (.blank idx) = .ret (true, info, { p with stream := t }) ∧
      OnFile t (front ++ (blocksBytes blocks ++ tail)) ∧ info.index = idx ∧
      (blockInfos front.length 0 blocks)[idx]? = some info := by
  obtain ⟨info, entry⟩ : ∃ info, (blockInfos front.length 0 blocks)[idx]? = some info :=
    ⟨_, List.getElem?_eq_getElem (by rw [blockInfos_length]; exact inside)⟩
  obtain ⟨b, before, after, split, rfl⟩ := exists_of_blockInfos tail entry
  have whole := h
  rw [split] at whole
  obtain ⟨t, run, stands⟩ := validateBlock_reads whole idx (by
    rw [listed, List.getElem?_map, entry]
    rfl) (by
      have small := WholeRead.length_le p.stream h.fit
      have long := length_le_blocksBytes blocks
      rw [h.content_eq, List.length_append, List.length_append] at small
      omega) (.blank idx)
  have last := stands.onFile
  rw [List.append_assoc, ← List.append_assoc (b.image.take _), List.take_append_drop, ← split] at last
  rw [Nat.zero_add] at entry
  exact ⟨t, _, run, last, rfl, entry⟩

/-- An index of the blocks of the file is a valid one. -/
theorem validateBlockIndex_reads (env : Env φ) (h : OnFile p.stream (front ++ (blocksBytes blocks ++ tail)))
    (indexes : infos = blockInfos front.length 0 blocks)
    (listed : p.block.index.items = infos.map fun info => .ofInt info.headerPos)
    (unread : p.block.infos = Vec.empty) (uncounted : p.block.count = 0) :
    ∃ t table, validateBlockIndex env p = .ret (true, { p with stream := t, block := table }) ∧
      OnFile t (front ++ (blocksBytes blocks ++ tail)) ∧ table.index = p.block.index ∧
      table.found = p.block.found ∧ table.infos.items.map BlockInfo.index = List.range infos.length ∧
      table.count = infos.length ∧ table.infos.items.head? = infos.head? := by
  subst indexes
  have length := blockInfos_length blocks front.length 0
  have size : p.block.index.size = blocks.length := by
    rw [Vec.size, listed, List.length_map, length]
  have small := WholeRead.length_le p.stream h.fit
  rw [h.content_eq, List.length_append, List.length_append] at small
  have spaced : entriesSpaced p.block.index.items = true := by
    rw [listed]
    exact entriesSpaced_blockInfos _ _ (by omega)
  have assertion : assert p.isSeekable = .ret () := by
    rw [Parser.isSeekable_of_onFile h]
    rfl
  rw [validateBlockIndex, assertion, Outcome.ret_bind]
  simp only [size]
  by_cases none : blocks.length < 1
  · have nil : blocks = [] := List.length_eq_zero_iff.mp (by omega)
    subst nil
    refine ⟨p.stream, p.block, if_pos none, h, rfl, rfl, ?_, uncounted, ?_⟩
    · rw [unread]
      rfl
    · rw [unread]
      rfl
  · obtain ⟨t, first, run, onFile, index, entry⟩ :=
      validateEntry_reads h listed 0 (by omega)
    obtain ⟨u, last, run', onFile', index'⟩ : ∃ u last, validateLastBlock { p with stream := t }
        blocks.length = .ret (true, last, { p with stream := u }) ∧
        OnFile u (front ++ (blocksBytes blocks ++ tail)) ∧ last.index = blocks.length - 1 := by
      by_cases one : blocks.length > 1
      · obtain ⟨u, last, run', onFile', index', -⟩ := validateEntry_reads (p := { p with stream := t })
          onFile listed (blocks.length - 1) (by omega)
        exact ⟨u, last, (if_pos one).trans run', onFile', index'⟩
      · exact ⟨t, _, if_neg one, onFile, rfl⟩
    refine ⟨u, { p.block with
      infos := pushInfos env.vec (p.block.infos.reserve env.vec blocks.length)
        (indexInfos blocks.length first last)
      count := blocks.length }, ?_, onFile', rfl, rfl, ?_, length.symm, ?_⟩
    · rw [if_neg none, spaced]
      simp only [Bool.not_true, Bool.false_eq_true, if_false]
      rw [run]
      simp only [Outcome.ret_bind, Bool.not_true, Bool.false_eq_true, if_false]
      rw [run']
      simp only [Outcome.ret_bind, Bool.not_true, Bool.false_eq_true, if_false]
      rfl
    · dsimp only
      rw [pushInfos, pushes_items, unread, length]
      exact numbered_indexInfos (by omega) index index'
    · dsimp only
      rw [pushInfos, pushes_items, unread, List.head?_eq_getElem?, List.head?_eq_getElem?, entry]
      rfl

theorem readEntries_all (offsets : List Int64) :
    readEntries (offsets.map some) = (offsets, true) := by
  induction offsets with
  | nil => rfl
  | cons offset offsets ih => rw [List.map_cons, readEntries, ih]

/-- The index document, from its header to the end of the file. -/
theorem parseBlockIndexDocument_reads (exact : env.vec.Exact)
    (fresh : p.block = ⟨Vec.empty, Vec.empty, false, 0, 0⟩) (h : Stands p.stream done rest)
    (held : rest ≠ []) (file : done ++ rest = front ++ (blocksBytes blocks ++ tail))
    (indexes : infos = blockInfos front.length 0 blocks)
    (names : env.fy.buildSequence rest = some (infos.map fun info => some (.ofInt info.headerPos))) :
    ∃ t table, parseBlockIndexDocument env ((done ++ rest).length : Nat) p =
        .ret (.event (.blockIndex (infos.map fun info => .ofInt info.headerPos)),
          { p with stream := t, block := table }) ∧
      OnFile t (done ++ rest) ∧ WithIndex infos 0 table := by
  have small := h.small
  have count : sizeAdd 0 (((done ++ rest).length : Nat) - tell p.stream) = rest.length := by
    have limit : offMax = 2 ^ 63 - 1 := rfl
    rw [h.tell_eq, sizeAdd]
    rw [List.length_append] at small ⊢
    omega
  obtain ⟨v, t, next, stands, -, -, shown, -⟩ := next_stands h (show rest.length ≤ offMax by
    rw [List.length_append] at small
    omega)
  obtain ⟨v, rfl, shows⟩ := shown.some_of_ne held
  have built : buildBlockIndex env v rest.length =
      .ret (some (infos.map fun info => some (.ofInt info.headerPos))) := by
    rw [buildBlockIndex, shows.load (Nat.le_refl _), List.take_length, ← names]
    rfl
  have read : readEntries (infos.map fun info => some (.ofInt info.headerPos)) =
      (infos.map fun info => .ofInt info.headerPos, true) := by
    rw [← readEntries_all, List.map_map]
    rfl
  have count' : (infos.map fun info => Int64.ofInt info.headerPos).length ≤ infos.length :=
    Nat.le_of_eq (List.length_map _)
  obtain ⟨pushed, capacity⟩ := pushes_reserved exact count'
  have onFile := stands.onFile
  rw [file] at onFile
  obtain ⟨u, table, valid, last, index, found, numbered, all, head⟩ := validateBlockIndex_reads
    env (p := { p with
      stream := t
      block := { p.block with
        index := ((infos.map fun info => Int64.ofInt info.headerPos).foldl (Vec.push env.vec)
          (p.block.index.reserve env.vec infos.length)) } }) onFile indexes (by
      rw [fresh]
      exact pushed) (by rw [fresh]) (by rw [fresh])
  rw [fresh] at index
  have listed : table.index.items = infos.map fun info => .ofInt info.headerPos := by
    rw [index]
    exact pushed
  refine ⟨u, { table with hasIndex := true }, ?_, file ▸ last, ?_, rfl, listed, ?_, numbered,
    fun _ => ⟨all, head⟩, fun some => absurd rfl some⟩
  · rw [parseBlockIndexDocument, count, next, Outcome.ret_bind]
    dsimp only
    rw [built, Outcome.ret_bind]
    dsimp only
    rw [List.length_map, read]
    simp only [Bool.not_true, Bool.false_eq_true, if_false]
    rw [valid, Outcome.ret_bind]
    simp only [listed]
    rfl
  · rw [found, fresh]
  · rw [index]
    exact Nat.le_of_eq capacity.symm

/-- The search begins inside the file. -/
theorem alignedOffset_place (searched : 0 < env.pageSize) (n : Nat) :
    alignedOffset env n = ((alignedOffset env n).toNat : Nat) ∧ (alignedOffset env n).toNat ≤ n := by
  have lower : 0 ≤ (n : Int) % env.pageSize := Int.emod_nonneg _ (by omega)
  have upper : (n : Int) % env.pageSize < env.pageSize := Int.emod_lt_of_pos _ searched
  rw [alignedOffset]
  split
  · have parts := Int.mul_ediv_add_emod (n : Int) env.pageSize
    have whole : env.pageSize ≤ env.pageSize * ((n : Int) / env.pageSize) := by
      have one : 1 ≤ (n : Int) / env.pageSize := (Int.le_ediv_iff_mul_le searched).mpr (by omega)
      have := Int.mul_le_mul_of_nonneg_left one (Int.le_of_lt searched)
      omega
    omega
  · omega

/-- The search finds the index, and stops at its header. -/
theorem parseFindBlockIndex_present {before line : Bytes} (h : OnFile p.stream bytes)
    (searched : 0 < env.pageSize) (ends : line = [newline] ∨ line = [carriageReturn, newline])
    (file : bytes = before ++ (blockIndexHeader ++ (line ++ rest)))
    (inside : (alignedOffset env bytes.length).toNat ≤ before.length)
    (found : LibAsdf.scanTokens (bytes.drop (alignedOffset env bytes.length).toNat)
      [blockIndexHeader] = some (before.length - (alignedOffset env bytes.length).toNat, 0)) :
    ∃ t, (∀ fuel, parseFindBlockIndex env (fuel + 1) p (bytes.length : Nat) =
        .ret (.event .none, { p with stream := t })) ∧
      Stands t before (blockIndexHeader ++ (line ++ rest)) := by
  obtain ⟨place, le⟩ := alignedOffset_place searched bytes.length
  generalize start : (alignedOffset env bytes.length).toNat = n at place le inside found
  have parts : bytes = bytes.take n ++ bytes.drop n := (List.take_append_drop n bytes).symm
  have ahead : bytes.drop n = before.drop n ++ (blockIndexHeader ++ (line ++ rest)) := by
    rw [file, List.drop_append_of_le_length inside]
  have front : bytes.take n ++ before.drop n = before := by
    rw [file, List.take_append_of_le_length inside, List.take_append_drop]
  have onFile := h
  rw [parts] at onFile
  obtain ⟨t, sought, stands⟩ := trySeek_set onFile
  rw [List.length_take, Nat.min_eq_left le, ← place] at sought
  rw [ahead] at stands found
  rw [← List.length_drop] at found
  obtain ⟨u, scanned, stands', -, -⟩ := scanTokens_stands (p := { p with stream := t })
    [.blockIndexHeader] .blockIndexHeader stands (by decide) (by
      rw [List.length_append, List.length_append]
      exact Nat.le_trans (Nat.le_add_right 17 _) (Nat.le_add_left _ _)) found rfl
  rw [front] at stands'
  obtain ⟨v, w, run, stands'', -, shown, -⟩ := peek_stands stands'
    (show blockIndexHeader.length + 1 ≤ offMax by decide)
  obtain ⟨v, rfl, shows⟩ := shown.some_of_ne (List.cons_ne_nil _ _)
  have width := shows.1
  have one : 1 ≤ line.length := by rcases ends with rfl | rfl <;> decide
  rw [List.length_append, List.length_append] at width
  refine ⟨w, fun fuel => ?_, stands''⟩
  rw [parseFindBlockIndex, if_neg (by omega), if_neg (by omega), sought, Outcome.ret_bind]
  dsimp only
  rw [if_neg (by decide)]
  refine Outcome.loop_of_exit ?_ fuel
  rw [parseFindBlockIndexRound]
  dsimp only
  rw [scanned, Outcome.ret_bind]
  dsimp only
  rw [run, Outcome.ret_bind]
  dsimp only
  rw [if_neg (by omega), endsWithNewline_line shows (by decide) ends, Outcome.ret_bind, if_pos rfl]
  rfl

theorem parseFindBlockIndex_absent (h : OnFile p.stream bytes) (searched : 0 < env.pageSize)
    (none : LibAsdf.scanTokens (bytes.drop (alignedOffset env bytes.length).toNat)
      [blockIndexHeader] = none) :
    ∃ t, (∀ fuel, parseFindBlockIndex env (fuel + 1) p (bytes.length : Nat) =
        .ret (.continue, { p with stream := t })) ∧ OnFile t bytes := by
  obtain ⟨place, le⟩ := alignedOffset_place searched bytes.length
  generalize start : (alignedOffset env bytes.length).toNat = n at place le none
  have parts : bytes = bytes.take n ++ bytes.drop n := (List.take_append_drop n bytes).symm
  have onFile := h
  rw [parts] at onFile
  obtain ⟨t, sought, stands⟩ := trySeek_set onFile
  rw [List.length_take, Nat.min_eq_left le, ← place] at sought
  obtain ⟨u, scanned, last⟩ := scanTokens_lost (p := { p with stream := t })
    [.blockIndexHeader] stands none
  rw [← parts] at last
  refine ⟨u, fun fuel => ?_, last⟩
  rw [parseFindBlockIndex, if_neg (by omega), if_neg (by omega), sought, Outcome.ret_bind]
  dsimp only
  rw [if_neg (by decide)]
  refine Outcome.loop_of_exit ?_ fuel
  rw [parseFindBlockIndexRound]
  dsimp only
  rw [scanned, Outcome.ret_bind]
  rfl

/-- The state of the block index: the index is read if there is one, and the stream is back
where it was. -/
theorem parseBlockIndex_reads {indexed : Bool} (exact : env.vec.Exact)
    (fresh : p.block = ⟨Vec.empty, Vec.empty, false, 0, 0⟩) (h : Stands p.stream done rest)
    (file : done ++ rest = front ++ (blocksBytes blocks ++ tail))
    (indexes : infos = blockInfos front.length 0 blocks)
    (found : IndexFound env (done ++ rest) infos indexed) :
    ∃ t table, (∀ fuel, parseBlockIndex env (fuel + 1) p = .ret
        (if indexed then .event (.blockIndex (infos.map fun info => .ofInt info.headerPos))
          else .continue, { p with stream := t, state := .treeOrBlock, block := table })) ∧
      Stands t done rest ∧ TableAt indexed infos 0 table := by
  have seekable := Parser.isSeekable_of_onFile h.onFile
  obtain ⟨s, toEnd, atEnd⟩ := trySeek_end h.onFile
  have size : tell s = ((done ++ rest).length : Nat) := atEnd.tell_eq
  have whole : OnFile s (done ++ rest) := by
    have onFile := atEnd.onFile
    rw [List.append_nil] at onFile
    exact onFile
  -- What is found, up to the seek back
  obtain ⟨t, table, result, onFile, last⟩ : ∃ t table, (∀ fuel,
      parseFoundBlockIndex env (fuel + 1) { p with stream := s } ((done ++ rest).length : Nat) =
        .ret (if indexed then .event (.blockIndex (infos.map fun info => .ofInt info.headerPos))
          else .continue, { p with stream := t, block := table })) ∧
      OnFile t (done ++ rest) ∧ TableAt indexed infos 0 table := by
    have unread : TableAt false infos 0 p.block := by
      rw [fresh]
      exact withoutIndex_fresh
    cases found with
    | unsearched none =>
      refine ⟨s, p.block, fun fuel => ?_, whole, unread⟩
      rw [parseFoundBlockIndex, parseFindBlockIndex, if_pos none]
      rfl
    | absent searched none =>
      obtain ⟨t, run, onFile⟩ := parseFindBlockIndex_absent (p := { p with stream := s }) whole
        searched none
      refine ⟨t, p.block, fun fuel => ?_, onFile, unread⟩
      rw [parseFoundBlockIndex, run]
      rfl
    | present before line behind searched ends eq inside scanned names =>
      obtain ⟨t, run, stands⟩ := parseFindBlockIndex_present (p := { p with stream := s }) whole
        searched ends eq inside scanned
      obtain ⟨u, table, read, onFile, indexed⟩ := parseBlockIndexDocument_reads
        (p := { p with stream := t }) exact fresh stands (List.cons_ne_nil _ _)
        (eq.symm.trans file) indexes names
      rw [← eq] at read onFile
      refine ⟨u, table, fun fuel => ?_, onFile, indexed⟩
      rw [parseFoundBlockIndex, run, Outcome.ret_bind]
      exact read
  obtain ⟨u, back, stands⟩ := trySeek_set (p := { p with stream := t, block := table }) onFile
  refine ⟨u, table, fun fuel => ?_, stands, last⟩
  rw [parseBlockIndex, if_neg (by rw [seekable]; decide), h.tell_eq, toEnd, Outcome.ret_bind]
  dsimp only
  rw [if_neg (by decide), size, result, Outcome.ret_bind]
  dsimp only
  rw [back, Outcome.ret_bind]
  rfl

end Index

end LibAsdf
