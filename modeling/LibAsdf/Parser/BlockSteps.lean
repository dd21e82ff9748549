import LibAsdf.Parser.Steps

/-!
# What the block handlers can do

The lemmas of the handlers that read and write the block table: what they leave
in it, where their vector accesses are in range, and how the bytes left go down.

* `parseBlockIndex_spec`: the block index, which is looked for once;
* `parseNewBlock_spec`, `blockFromIndex_spec`: the two ways to the next block;
* `countBlock_spec`: the update of the index.
-/

namespace LibAsdf

open StreamOps ParserStream StreamMeasure LawfulStream

variable {σ φ : Type} [ParserStream σ] [LawfulStream σ] {p : Parser σ φ}

/-! ## Block headers -/

/-- What `asdf_block_info_read` leaves: a block that was read took bytes. -/
structure BlockRead (s : σ) (outBlock : BlockInfo) (r : Bool × BlockInfo × σ) : Prop where
  onward : Onward s r.2.2
  index : r.2.1.index = outBlock.index
  read : r.1 = true → left r.2.2 < left s ∧ r.2.1.headerPos = tell s ∧
    r.2.1.dataPos = tell r.2.2

theorem blockInfoReadFields_ends {s : σ} (h : Good s) (headerPos : Int) (outBlock : BlockInfo) :
    Ends (fun r => Onward s r.2.2 ∧ r.2.1.index = outBlock.index ∧ (r.1 = true →
      r.2.1.headerPos = headerPos ∧ r.2.1.dataPos = StreamOps.tell r.2.2))
      (blockInfoReadFields headerPos outBlock s) := by
  refine Outcome.wp_seq (next_ends s outBlock.header.headerSize h) fun r hr => ?_
  obtain ⟨buf, t⟩ := r
  obtain ⟨onward, fed⟩ := hr
  have failed := onward.trans (onward_setError onward.good .unexpectedEof)
  cases buf with
  | none => exact ⟨failed, rfl, nofun⟩
  | some v =>
    obtain ⟨-, fed⟩ := fed v rfl
    dsimp only
    split
    · exact ⟨failed, rfl, nofun⟩
    · rename_i enough
      refine Outcome.wp_seq (load_ends v.mem 0 blockHeaderSize) fun bytes _ => ?_
      refine Outcome.wp_seq (consume_ends t outBlock.header.headerSize 0 onward.good
        (fed_mono t (Nat.le_of_not_lt enough) fed)) fun u hu => ?_
      obtain ⟨keeps, less, -⟩ := hu
      have moved := onward.trans ⟨keeps, Nat.le_of_add_right_le less⟩
      split
      · exact ⟨moved, rfl, nofun⟩
      · exact ⟨moved, rfl, fun _ => ⟨rfl, rfl⟩⟩

theorem blockInfoRead_ends {s : σ} (h : Good s) (fed : Fed s blockMagic.length)
    (outBlock : BlockInfo) : Ends (BlockRead s outBlock) (blockInfoRead outBlock s) := by
  refine Outcome.wp_seq (consume_ends s blockMagic.length 0 h fed) fun t ht => ?_
  obtain ⟨keeps, less, -⟩ := ht
  have shorter : left t < left s := Nat.lt_of_lt_of_le (Nat.lt_add_of_pos_right (by decide)) less
  have onward : Onward s t := ⟨keeps, Nat.le_of_lt shorter⟩
  dsimp only
  split
  · exact ⟨onward, rfl, nofun⟩
  · refine Outcome.wp_seq (next_ends t 2 onward.good) fun r hr => ?_
    obtain ⟨buf, u⟩ := r
    obtain ⟨moved, fed⟩ := hr
    have good : Good u := moved.good
    have failed : ∀ code, Onward s (setError u code) := fun code =>
      (onward.trans moved).trans (onward_setError good code)
    cases buf with
    | none => exact ⟨failed _, rfl, nofun⟩
    | some v =>
      obtain ⟨-, fed⟩ := fed v rfl
      dsimp only
      split
      · exact ⟨failed _, rfl, nofun⟩
      · rename_i enough
        refine Outcome.wp_seq (load_ends v.mem 0 2) fun bytes _ => ?_
        split
        · exact ⟨failed _, rfl, nofun⟩
        · refine Outcome.wp_seq (consume_ends u 2 0 good
            (fed_mono u (Nat.le_of_not_lt enough) fed)) fun w hw => ?_
          obtain ⟨keeps, less, -⟩ := hw
          have further : Onward t w := moved.trans ⟨keeps, Nat.le_of_add_right_le less⟩
          split
          · exact ⟨onward.trans further, rfl, nofun⟩
          · refine Outcome.wp_mono (blockInfoReadFields_ends further.good _ _) fun r hr => ?_
            obtain ⟨rest, index, read⟩ := hr
            have all := further.trans rest
            exact ⟨onward.trans all, index, fun ok =>
              ⟨Nat.lt_of_le_of_lt all.left_le shorter, read ok⟩⟩

/-! ## Entries of the block index -/

/-- An entry before the start of the stream names no block, and gives no bytes
back. -/
structure Validated (p : Parser σ φ) (idx : Nat) (blockOut : BlockInfo)
    (r : Bool × BlockInfo × Parser σ φ) : Prop where
  frame : ∃ s, r.2.2 = { p with stream := s } ∧ Keeps p.stream s ∧
    ((∀ offset, p.block.index.items[idx]? = some offset → offset < 0) →
      left s ≤ left p.stream)
  index : r.2.1.index = blockOut.index
  entry : r.1 = true → ∃ offset, p.block.index.items[idx]? = some offset ∧ 0 ≤ offset

theorem validateBlock_ends (h : Good p.stream) (seekable : p.isSeekable) (idx : Nat)
    (blockOut : BlockInfo) : Ends (Validated p idx blockOut) (validateBlock p idx blockOut) := by
  rw [validateBlock]
  split
  · exact ⟨⟨p.stream, rfl, .refl h, fun _ => Nat.le_refl _⟩, rfl, nofun⟩
  · rename_i inside
    have size : idx < p.block.index.items.length := by
      have : p.block.index.size = p.block.index.items.length := rfl
      omega
    obtain ⟨offset, entry⟩ : ∃ offset, p.block.index.items[idx]? = some offset :=
      ⟨_, List.getElem?_eq_getElem size⟩
    have read : p.block.index.at idx = .ret offset := by rw [Vec.at, entry]
    rw [read, Outcome.ret_bind]
    have negative : offset < 0 → offset.toInt < 0 := fun lt => by
      simpa using Int64.lt_iff_toInt_lt.mp lt
    refine Outcome.wp_seq (trySeek_ends h offset.toInt .set) fun r hr => ?_
    obtain ⟨ok, q⟩ := r
    obtain ⟨s, rfl, sought⟩ := hr
    have before : offset < 0 → left s ≤ left p.stream ∧ (ok = true → left s = 0) := fun lt =>
      sought.before rfl seekable (Int64.le_toInt offset) (negative lt)
    cases ok with
    | false => exact ⟨⟨s, rfl, sought.keeps, fun all => (before (all offset entry)).1⟩, rfl, nofun⟩
    | true =>
      refine Outcome.wp_seq (streamPeek_ends sought.keeps.good _) fun r hr => ?_
      obtain ⟨buf, t⟩ := r
      obtain ⟨onward, fed⟩ := hr
      have good : Good t := onward.good
      have keeps := sought.keeps.trans onward.toKeeps
      have fewer : offset < 0 → left t ≤ left p.stream := fun lt =>
        Nat.le_trans onward.left_le (before lt).1
      refine Outcome.wp_seq (isBlockMagic_ends buf) fun magic hm => ?_
      cases magic with
      | false => exact ⟨⟨t, rfl, keeps, fun all => fewer (all offset entry)⟩, rfl, nofun⟩
      | true =>
        obtain ⟨v, rfl, long⟩ := hm rfl
        obtain ⟨pos, fed⟩ := fed v rfl
        have held : blockMagic.length ≤ left t := fed_le t _ (fed_mono t long fed)
        have start : 0 ≤ offset := by
          rw [← Int64.not_lt]
          intro lt
          have none := (before lt).2 rfl
          have : left t ≤ left s := onward.left_le
          exact absurd (none ▸ Nat.le_trans held this) (by decide)
        refine Outcome.wp_seq (blockInfoRead_ends good (fed_mono t long fed) blockOut)
          fun r hr => ?_
        exact ⟨⟨r.2.2, rfl, keeps.trans hr.onward.toKeeps, fun all =>
          Nat.le_trans hr.onward.left_le (fewer (all offset entry))⟩, hr.index,
          fun _ => ⟨offset, entry, start⟩⟩

/-! ## The next block -/

/-- What `block_from_index` does: only the infos may be written, and an entry
before the start of the stream gives no bytes back. -/
structure FromIndex (p : Parser σ φ) (blockIdx : Nat) (r : Option BlockInfo × Parser σ φ) :
    Prop where
  frame : ∃ s infos, r.2 = { p with stream := s, block := { p.block with infos := infos } } ∧
    infos.size = p.block.infos.size ∧ Keeps p.stream s ∧
    (p.block.count ≤ blockIdx → (∀ offset, p.block.index.items[blockIdx]? = some offset →
      offset < 0) → left s ≤ left p.stream)
  entry : r.1 ≠ none → p.block.count ≤ blockIdx →
    ∃ offset, p.block.index.items[blockIdx]? = some offset ∧ 0 ≤ offset

theorem blockFromIndex_spec (h : Good p.stream) (seekable : p.isSeekable) {blockIdx : Nat}
    (range : blockIdx < p.block.infos.size) :
    Ends (FromIndex p blockIdx) (blockFromIndex p blockIdx) := by
  have same : FromIndex p blockIdx (none, p) :=
    ⟨⟨p.stream, p.block.infos, rfl, rfl, .refl h, fun _ _ => Nat.le_refl _⟩,
      fun some => absurd rfl some⟩
  rw [blockFromIndex]
  split
  · exact same
  · obtain ⟨info, found⟩ : ∃ info, p.block.infos.items[blockIdx]? = some info :=
      ⟨_, List.getElem?_eq_getElem range⟩
    have read : p.block.infos.at blockIdx = .ret info := by rw [Vec.at, found]
    rw [read, Outcome.ret_bind]
    dsimp only
    split
    · rename_i inside
      split
      · exact same
      · refine Outcome.wp_seq (trySeek_ends h info.dataPos .set) fun r hr => ?_
        obtain ⟨s, eq, sought⟩ := hr
        exact ⟨⟨s, p.block.infos, eq, rfl, sought.keeps,
          fun le => absurd inside (Nat.not_lt_of_le le)⟩,
          fun _ le => absurd inside (Nat.not_lt_of_le le)⟩
    · refine Outcome.wp_seq (validateBlock_ends h seekable blockIdx info) fun r hr => ?_
      obtain ⟨ok, info', q⟩ := r
      obtain ⟨s, rfl, keeps, fewer⟩ := hr.frame
      have written : p.block.infos.setAt blockIdx info' =
          .ret { p.block.infos with items := p.block.infos.items.set blockIdx info' } :=
        if_pos range
      dsimp only
      rw [written, Outcome.ret_bind]
      refine ⟨⟨s, _, rfl, List.length_set, keeps, fun _ => fewer⟩, fun some _ => hr.entry ?_⟩
      cases ok with
      | true => rfl
      | false => exact absurd rfl some

/-- What `parse_new_block` does: a block that it finds took bytes. -/
def NewBlock (env : Env φ) (p : Parser σ φ) (r : Option BlockInfo × Parser σ φ) : Prop :=
  ∃ s, Onward p.stream s ∧ (r = (none, { p with stream := s }) ∨
    ∃ info, r = (some info, { p with
      stream := s
      block := { p.block with infos := p.block.infos.push env.vec info } }) ∧
      left s < left p.stream ∧ info.dataPos = tell s)

/-- What reading a block where the stream is leaves. -/
def BlockHere (env : Env φ) (p : Parser σ φ) (r : Bool × BlockInfo × Parser σ φ) : Prop :=
  ∃ s info, Onward p.stream s ∧ (r = (false, info, { p with stream := s }) ∨
    r = (true, info, { p with
      stream := s
      block := { p.block with infos := p.block.infos.push env.vec info } }) ∧
      left s < left p.stream ∧ info.dataPos = tell s)

theorem readNewBlock_ends (h : Good p.stream) (fed : Fed p.stream blockMagic.length) (env : Env φ)
    (info : BlockInfo) : Ends (BlockHere env p) (readNewBlock env p info) := by
  refine Outcome.wp_seq (blockInfoRead_ends h fed info) fun r hr => ?_
  obtain ⟨ok, info', s⟩ := r
  obtain ⟨onward, -, read⟩ := hr
  cases ok with
  | false => exact ⟨s, info', onward, .inl rfl⟩
  | true => exact ⟨s, info', onward, .inr ⟨rfl, (read rfl).1, (read rfl).2.2⟩⟩

theorem scanForBlock_ends (h : Good p.stream) :
    Ends (fun r => ∃ s, r.2 = { p with stream := s } ∧ Onward p.stream s ∧
      (r.1 = true → Fed s blockMagic.length)) (scanForBlock p) := by
  refine Outcome.wp_seq (scanTokens_ends h (List.cons_ne_nil _ _)) fun r hr => ?_
  obtain ⟨token, q⟩ := r
  obtain ⟨s, rfl, onward, found⟩ := hr
  cases token with
  | none => exact ⟨s, rfl, onward, nofun⟩
  | some token =>
    obtain ⟨member, fed⟩ := found token rfl
    cases List.mem_singleton.mp member
    exact ⟨s, rfl, onward, fun _ => fed⟩

theorem parseNewBlock_spec (h : Good p.stream) (env : Env φ) :
    Ends (NewBlock env p) (parseNewBlock env p) := by
  refine Outcome.wp_seq (streamPeek_ends h blockMagic.length) fun r hr => ?_
  obtain ⟨buf, t⟩ := r
  obtain ⟨onward, fed⟩ := hr
  have good : Good t := onward.good
  have here : Ends (BlockHere env { p with stream := t })
      (readBlockHere env { p with stream := t } buf) := by
    refine Outcome.wp_seq (isBlockMagic_ends buf) fun magic hm => ?_
    cases magic with
    | false => exact ⟨t, _, .refl good, .inl rfl⟩
    | true =>
      obtain ⟨v, rfl, long⟩ := hm rfl
      exact readNewBlock_ends good (fed_mono t long (fed v rfl).2) env _
  refine Outcome.wp_seq here fun r hr => ?_
  obtain ⟨s, info, moved, rfl | ⟨rfl, less, pos⟩⟩ := hr
  · dsimp only
    rw [if_neg (by decide)]
    refine Outcome.wp_seq (scanForBlock_ends moved.good) fun r hr => ?_
    obtain ⟨found, q⟩ := r
    obtain ⟨u, rfl, scanned, fed⟩ := hr
    have all := (onward.trans moved).trans scanned
    cases found with
    | false => exact ⟨u, all, .inl rfl⟩
    | true =>
      refine Outcome.wp_seq (readNewBlock_ends scanned.good (fed rfl) env info) fun r hr => ?_
      obtain ⟨w, info', read, rfl | ⟨rfl, less, pos⟩⟩ := hr
      · exact ⟨w, all.trans read, .inl rfl⟩
      · exact ⟨w, all.trans read, .inr ⟨info', rfl, Nat.lt_of_lt_of_le less all.left_le, pos⟩⟩
  · exact ⟨s, onward.trans moved,
      .inr ⟨info, rfl, Nat.lt_of_lt_of_le less onward.left_le, pos⟩⟩

/-- Whether the next block is looked up in the index. -/
def BlockTable.LooksUp (b : BlockTable) : Prop := b.hasIndex ∧ b.found < b.index.size

/-- The next block can only be found by reading on. -/
def BlockTable.Sequential (b : BlockTable) : Prop :=
  b.LooksUp → b.count ≤ b.found ∧ ∀ offset, b.index.items[b.found]? = some offset → offset < 0

/-- What the look-up of the next block by `parse_block` does. -/
inductive NextBlock (env : Env φ) (p : Parser σ φ) : Option BlockInfo × Parser σ φ → Prop
  | none (s : σ) (infos : Vec BlockInfo) (index : Vec Int64) (keeps : Keeps p.stream s) :
      NextBlock env p (none,
        { p with stream := s, block := { p.block with infos := infos, index := index } })
  | indexed (s : σ) (infos : Vec BlockInfo) (info : BlockInfo) (keeps : Keeps p.stream s)
      (looks : p.block.LooksUp) (size : infos.size = p.block.infos.size)
      (hit : ¬ p.block.Sequential) :
      NextBlock env p (some info, { p with stream := s, block := { p.block with infos := infos } })
  | read (s : σ) (infos : Vec BlockInfo) (index : Vec Int64) (info : BlockInfo)
      (keeps : Keeps p.stream s) (size : infos.size = p.block.infos.size + 1)
      (same : index.capacity = p.block.index.capacity ∧
        (index.items = p.block.index.items ∨
          index.items = p.block.index.items.set p.block.found (-1)))
      (less : p.block.Sequential → left s < left p.stream) (dataPos : info.dataPos = tell s) :
      NextBlock env p (some info,
        { p with stream := s, block := { p.block with infos := infos, index := index } })

/-- What the look-up of a block leaves as it is. -/
structure NextBlock.Frame (p q : Parser σ φ) : Prop where
  keeps : Keeps p.stream q.stream
  state : q.state = p.state
  done : q.done = p.done
  hasIndex : q.block.hasIndex = p.block.hasIndex

theorem NextBlock.frame {env : Env φ} {found : Option BlockInfo} {q : Parser σ φ}
    (next : NextBlock env p (found, q)) : Frame p q := by
  cases next with
  | none s infos index keeps => exact ⟨keeps, rfl, rfl, rfl⟩
  | indexed s infos info keeps => exact ⟨keeps, rfl, rfl, rfl⟩
  | read s infos index info keeps => exact ⟨keeps, rfl, rfl, rfl⟩

theorem Vec.size_push {α : Type} (policy : VecPolicy) (v : Vec α) (a : α) :
    (v.push policy a).size = v.size + 1 := List.length_append

theorem parseBlockInfo_spec (h : Good p.stream) (seekable : p.block.hasIndex → p.isSeekable)
    (range : p.block.LooksUp → p.block.found < p.block.infos.size) (env : Env φ) :
    Ends (NextBlock env p) (parseBlockInfo env p) := by
  rw [parseBlockInfo]
  dsimp only
  split
  · rename_i looks
    have looks : p.block.LooksUp := by simpa [BlockTable.LooksUp] using looks
    refine Outcome.wp_seq (blockFromIndex_spec h (seekable looks.1) (range looks)) fun r hr => ?_
    obtain ⟨found, q⟩ := r
    obtain ⟨⟨s, infos, rfl, size, keeps, fewer⟩, entry⟩ := hr
    cases found with
    | some info =>
      refine .indexed s infos info keeps looks size fun sequential => ?_
      obtain ⟨counted, negative⟩ := sequential looks
      obtain ⟨offset, eq, start⟩ := entry (Option.some_ne_none _) counted
      exact absurd (negative offset eq) (Int64.not_lt.mpr start)
    | none =>
      have marked : p.block.index.setAt p.block.found (-1) =
          .ret { p.block.index with items := p.block.index.items.set p.block.found (-1) } :=
        if_pos looks.2
      dsimp only
      rw [marked, Outcome.ret_bind]
      refine Outcome.wp_mono (parseNewBlock_spec keeps.good env) fun r hr => ?_
      obtain ⟨t, onward, rfl | ⟨info, rfl, less, dataPos⟩⟩ := hr
      · exact .none t infos _ (keeps.trans onward.toKeeps)
      · refine .read t _ _ info (keeps.trans onward.toKeeps) ?_ ⟨rfl, .inr rfl⟩
          (fun sequential => ?_) dataPos
        · rw [Vec.size_push, size]
        · obtain ⟨counted, negative⟩ := sequential looks
          exact Nat.lt_of_lt_of_le less (fewer counted negative)
  · refine Outcome.wp_mono (parseNewBlock_spec h env) fun r hr => ?_
    obtain ⟨t, onward, rfl | ⟨info, rfl, less, dataPos⟩⟩ := hr
    · exact .none t _ _ onward.toKeeps
    · exact .read t _ _ info onward.toKeeps (Vec.size_push ..) ⟨rfl, .inl rfl⟩ (fun _ => less)
        dataPos

/-! ## Counting a block -/

/-- The table after one more block, whose header position may be written. -/
structure BlockTable.Counted (policy : VecPolicy) (b b' : BlockTable) : Prop where
  infos : b'.infos = b.infos
  hasIndex : b'.hasIndex = b.hasIndex
  found : b'.found = b.found + 1
  count : b'.count = b.found + 1
  capacity : b'.index.capacity = (b.grownIndex policy).capacity
  items : b'.index.items = (b.grownIndex policy).items ∨
    ∃ offset, b'.index.items = (b.grownIndex policy).items.set b.found offset

omit [ParserStream σ] [LawfulStream σ] in
theorem countBlock_spec (env : Env φ) (p : Parser σ φ) (info : BlockInfo) :
    Outcome.wp (fun e => e = .vector ∧ (p.block.grownIndex env.vec).size ≤ p.block.found) False
      (fun q => ∃ b, q = { p with block := b } ∧ p.block.Counted env.vec b)
      (countBlock env p info) := by
  rw [countBlock]
  dsimp only
  split
  · rw [Vec.setAt]
    split
    · exact ⟨_, rfl, rfl, rfl, rfl, rfl, rfl, .inr ⟨_, rfl⟩⟩
    · rename_i outside
      exact ⟨rfl, Nat.le_of_not_lt outside⟩
  · exact ⟨_, rfl, rfl, rfl, rfl, rfl, rfl, .inl rfl⟩

theorem skipBlock_spec (h : Good p.stream) (info : BlockInfo) :
    Ends (fun r => ∃ s, Keeps p.stream s ∧
      (r = (.error, { p with stream := s }) ∨
        r = (.event (.block info), { p with stream := s })) ∧
      ((p.isSeekable → 0 ≤ tell p.stream) → left s ≤ left p.stream)) (skipBlock p info) := by
  rw [skipBlock]
  split
  · have failed := onward_setError h .invalidBlockHeader
    exact ⟨_, failed.toKeeps, .inl rfl, fun _ => failed.left_le⟩
  · rename_i fits
    have sought : Ends (fun r => Keeps p.stream r.2 ∧
        ((p.isSeekable → 0 ≤ tell p.stream) → left r.2 ≤ left p.stream))
        (seekPastBlock p.stream info) := by
      rw [seekPastBlock]
      split
      · exact Outcome.wp_mono (streamSeek_ends h 0 .end) fun r hr =>
          ⟨hr.keeps, fun _ => hr.ends rfl rfl⟩
      · rename_i sized
        refine Outcome.wp_mono (streamSeek_ends h info.header.allocatedSize .cur) fun r hr =>
          ⟨hr.keeps, fun told => hr.cur rfl ?_ fun can => ⟨told can, Int.natCast_nonneg _⟩⟩
        simp only [sized, Bool.not_false, Bool.true_and, decide_eq_true_eq, Nat.not_lt] at fits
        exact Int.ofNat_le.mpr fits
    refine Outcome.wp_seq sought fun r hr => ?_
    obtain ⟨ok, s⟩ := r
    obtain ⟨keeps, less⟩ := hr
    cases ok with
    | true => exact ⟨s, keeps, .inr rfl, less⟩
    | false =>
      have failed := onward_setError keeps.good .invalidBlockHeader
      exact ⟨_, keeps.trans failed.toKeeps, .inl rfl,
        fun told => Nat.le_trans failed.left_le (less told)⟩

/-- What `parse_block` does. -/
inductive Blocked (env : Env φ) (p : Parser σ φ) : ParseResult × Parser σ φ → Prop
  | full : Blocked env p (.error, p)
  | ended (q : Parser σ φ) (next : NextBlock env p (none, q)) (index : Vec Int64) :
      Blocked env p (.continue, { q with
        state := .end
        block := { q.block with index := index } })
  | block (q : Parser σ φ) (info : BlockInfo) (found : parseBlockInfo env p = .ret (some info, q))
      (next : NextBlock env p (some info, q)) (s : σ) (b : BlockTable)
      (counted : q.block.Counted env.vec b) (keeps : Keeps q.stream s)
      (less : (q.isSeekable → 0 ≤ tell q.stream) → left s ≤ left q.stream) (res : ParseResult)
      (result : res = .error ∨ res = .event (.block info)) :
      Blocked env p (res, { q with stream := s, block := b })

/-- A block follows for which the index has no room. -/
def Cramped (env : Env φ) (p : Parser σ φ) : Prop :=
  ∃ info q, parseBlockInfo env p = .ret (some info, q) ∧
    (q.block.grownIndex env.vec).size ≤ q.block.found

/-- The block infos hold none for the entry to be looked up. -/
def Unlisted (p : Parser σ φ) : Prop := p.block.LooksUp ∧ p.block.infos.size ≤ p.block.found

omit [LawfulStream σ] in
theorem parseBlockInfo_unlisted (unlisted : Unlisted p) (inside : p.block.found ≤ offMax)
    (env : Env φ) : parseBlockInfo env p = .fault .vector := by
  obtain ⟨⟨adopted, lt⟩, short⟩ := unlisted
  have beyond : p.block.infos.at p.block.found = .fault .vector := by
    rw [Vec.at, List.getElem?_eq_none (by exact short)]
  simp only [parseBlockInfo, adopted, lt, decide_true, Bool.and_true, if_true, blockFromIndex,
    if_neg (Nat.not_lt_of_le inside), beyond, Outcome.fault_bind]

theorem parseBlock_spec (h : Good p.stream) (seekable : p.block.hasIndex → p.isSeekable)
    (env : Env φ) :
    Outcome.wp (fun e => e = .vector → Unlisted p ∨ Cramped env p) False (Blocked env p)
      (parseBlock env p) := by
  rw [parseBlock]
  split
  · exact .full
  · rename_i inside
    by_cases unlisted : Unlisted p
    · rw [parseBlockInfo_unlisted unlisted (by omega)]
      exact fun _ => .inl unlisted
    · have range : p.block.LooksUp → p.block.found < p.block.infos.size := fun looks =>
        Nat.lt_of_not_le fun short => unlisted ⟨looks, short⟩
      have spec := parseBlockInfo_spec h seekable range env
      cases looked : parseBlockInfo env p with
      | timeout => exact absurd looked (Outcome.ne_timeout_of_wp spec)
      | fault e =>
        rw [looked] at spec
        exact fun eq => absurd eq spec
      | ret r =>
        have next := Outcome.wp_of_ret spec looked
        obtain ⟨found, q⟩ := r
        rw [Outcome.ret_bind]
        cases found with
        | none => exact .ended q next _
        | some info =>
          have good : Good q.stream := next.frame.keeps.good
          refine Outcome.wp_seq (Outcome.wp_imp (countBlock_spec env q info)
            (fun e he _ => .inr ⟨info, q, looked, he.2⟩) id) fun r hr => ?_
          obtain ⟨b, rfl, counted⟩ := hr
          refine Outcome.wp_mono (Outcome.wp_imp (skipBlock_spec (p := { q with block := b }) good
            info) (fun e other eq => absurd eq other) id) fun r hr => ?_
          obtain ⟨s, keeps, rfl | rfl, less⟩ := hr
          · exact .block q info looked next s b counted keeps less _ (.inl rfl)
          · exact .block q info looked next s b counted keeps less _ (.inr rfl)

/-! ## The block index -/

/-- What reading a block index does to the table: nothing; or entries are
pushed, up to the first item that is not an integer; or all of them are, and
the index is adopted or not. -/
inductive IndexRead (env : Env φ) (b : BlockTable) : BlockTable → Prop
  | untouched : IndexRead env b b
  | cut (items : List (Option Int64)) (entries : List Int64)
      (read : readEntries items = (entries, false)) : IndexRead env b { b with
        index := entries.foldl (Vec.push env.vec) (b.index.reserve env.vec items.length) }
  | refused (items : List (Option Int64)) (entries : List Int64)
      (read : readEntries items = (entries, true)) : IndexRead env b { b with
        index := entries.foldl (Vec.push env.vec) (b.index.reserve env.vec items.length) }
  | adopted (items : List (Option Int64)) (entries : List Int64)
      (read : readEntries items = (entries, true)) (infos : List BlockInfo)
      (size : infos.length = (entries.foldl (Vec.push env.vec)
        (b.index.reserve env.vec items.length)).size) (capacity count : Nat) :
      IndexRead env b { b with
        index := entries.foldl (Vec.push env.vec) (b.index.reserve env.vec items.length)
        infos := pushInfos env.vec { b.infos with capacity := capacity } infos
        hasIndex := true
        count := count }

theorem validateLastBlock_ends (h : Good p.stream) (seekable : p.isSeekable) (nBlocks : Nat) :
    Ends (fun r => ∃ s, r.2.2 = { p with stream := s } ∧ Keeps p.stream s)
      (validateLastBlock p nBlocks) := by
  rw [validateLastBlock]
  split
  · refine Outcome.wp_mono (validateBlock_ends h seekable _ _) fun r hr => ?_
    obtain ⟨s, eq, keeps, -⟩ := hr.frame
    exact ⟨s, eq, keeps⟩
  · exact ⟨p.stream, rfl, .refl h⟩

/-- What `validate_block_index` does. -/
def IndexValidated (env : Env φ) (p : Parser σ φ) (r : Bool × Parser σ φ) : Prop :=
  ∃ s, Keeps p.stream s ∧ (r = (false, { p with stream := s }) ∨
    ∃ infos capacity count, infos.length = p.block.index.size ∧ r = (true, { p with
      stream := s
      block := { p.block with
        infos := pushInfos env.vec { p.block.infos with capacity := capacity } infos
        count := count } }))

theorem indexInfos_length {nBlocks : Nat} (some : 1 ≤ nBlocks) (first last : BlockInfo) :
    (indexInfos nBlocks first last).length = nBlocks := by
  rw [indexInfos]
  split
  · simp only [List.length_cons, List.length_append, List.length_map, List.length_range',
      List.length_nil]
    omega
  · simp only [List.length_cons, List.length_nil]
    omega

theorem validateBlockIndex_spec (h : Good p.stream) (env : Env φ) :
    Ends (IndexValidated env p) (validateBlockIndex env p) := by
  rw [validateBlockIndex, assert]
  split
  · rename_i seekable
    rw [Outcome.ret_bind]
    dsimp only
    split
    · refine ⟨p.stream, .refl h, .inr ⟨[], p.block.infos.capacity, p.block.count, ?_, rfl⟩⟩
      rw [List.length_nil]
      omega
    · rename_i some
      split
      · exact ⟨p.stream, .refl h, .inl rfl⟩
      · refine Outcome.wp_seq (validateBlock_ends h seekable 0 _) fun r hr => ?_
        obtain ⟨ok, first, q⟩ := r
        obtain ⟨s, rfl, keeps, -⟩ := hr.frame
        cases ok with
        | false => exact ⟨s, keeps, .inl rfl⟩
        | true =>
          dsimp only
          rw [if_neg (by decide)]
          have still : Parser.isSeekable { p with stream := s } := keeps.seekable.trans seekable
          refine Outcome.wp_seq (validateLastBlock_ends (p := { p with stream := s }) keeps.good
            still _) fun r hr => ?_
          obtain ⟨ok, last, q⟩ := r
          obtain ⟨t, rfl, moved⟩ := hr
          cases ok with
          | false => exact ⟨t, keeps.trans moved, .inl rfl⟩
          | true => exact ⟨t, keeps.trans moved, .inr ⟨_, _, _, indexInfos_length (by omega) _ _,
              rfl⟩⟩
  · exact Fault.noConfusion

/-- The first match that `parse_find_block_index` looks at is rejected. -/
def FindRejects (env : Env φ) (p : Parser σ φ) (fileSize : Int) : Prop :=
  ∃ q q', p.trySeek (alignedOffset env fileSize) .set = .ret (true, q) ∧
    parseFindBlockIndexRound (false, q) = .ret (.inl q')

theorem parseFindBlockIndexRound_spec (h : Good p.stream) (seen : Bool) :
    Ends (Outcome.Round (fun r => ∃ s, r.2 = { p with stream := s } ∧ Keeps p.stream s)
      (fun r => ∃ s, r.2 = { p with stream := s } ∧ Keeps p.stream s))
      (parseFindBlockIndexRound (seen, p)) := by
  refine Outcome.wp_seq (scanTokens_ends h (List.cons_ne_nil _ _)) fun r hr => ?_
  obtain ⟨token, q⟩ := r
  obtain ⟨s, rfl, onward, -⟩ := hr
  cases token with
  | none => exact ⟨s, rfl, onward.toKeeps⟩
  | some token =>
    refine Outcome.wp_seq (streamPeek_ends onward.good _) fun r hr => ?_
    obtain ⟨buf, t⟩ := r
    have moved : Onward p.stream t := onward.trans hr.1
    cases buf with
    | none => exact ⟨t, rfl, moved.toKeeps⟩
    | some v =>
      dsimp only
      split
      · exact ⟨t, rfl, moved.toKeeps⟩
      · refine Outcome.wp_seq (endsWithNewline_ends v.mem v.len _) fun b _ => ?_
        cases b with
        | true => exact ⟨t, rfl, moved.toKeeps⟩
        | false => exact ⟨t, rfl, moved.toKeeps⟩

theorem parseFindBlockIndex_spec (h : Good p.stream) (env : Env φ) (fuel : Nat) (fileSize : Int) :
    Outcome.wp (fun e => e ≠ .vector) (fuel = 0 ∨ FindRejects env p fileSize)
      (fun r => ∃ s, r.2 = { p with stream := s } ∧ Keeps p.stream s)
      (parseFindBlockIndex env fuel p fileSize) := by
  rw [parseFindBlockIndex]
  split
  · exact ⟨p.stream, rfl, .refl h⟩
  split
  · exact ⟨_, rfl, (onward_setError h _).toKeeps⟩
  have spec := trySeek_ends h (alignedOffset env fileSize) .set
  cases sought : p.trySeek (alignedOffset env fileSize) .set with
  | timeout => exact absurd sought (Outcome.ne_timeout_of_wp spec)
  | fault e =>
    rwa [sought] at spec
  | ret r =>
    obtain ⟨ok, q⟩ := r
    obtain ⟨s, rfl, moved⟩ := Outcome.wp_of_ret spec sought
    cases ok with
    | false => exact ⟨s, rfl, moved.keeps⟩
    | true =>
      refine Outcome.wp_imp (Outcome.wp_loop_first
        (I := fun r => ∃ t, r.2 = { p with stream := t } ∧ Keeps p.stream t)
        (fun r hr => ?_) fuel (false, { p with stream := s }) ⟨s, rfl, moved.keeps⟩) (fun _ => id)
        (Or.imp_right fun ⟨q', hq⟩ => ⟨_, q', sought, hq⟩)
      obtain ⟨seen, q⟩ := r
      obtain ⟨t, rfl, keeps⟩ := hr
      refine Outcome.wp_mono (parseFindBlockIndexRound_spec keeps.good seen) fun r hr => ?_
      cases r with
      | inl r =>
        obtain ⟨u, eq, further⟩ := hr
        exact ⟨u, eq, keeps.trans further⟩
      | inr r =>
        obtain ⟨u, eq, further⟩ := hr
        exact ⟨u, eq, keeps.trans further⟩

/-- A handler that touches the stream, and the table as a block index may. -/
def TouchesIndex (env : Env φ) (p q : Parser σ φ) : Prop :=
  ∃ s b, q = { p with stream := s, block := b } ∧ Keeps p.stream s ∧ IndexRead env p.block b

theorem parseBlockIndexDocument_spec (h : Good p.stream) (env : Env φ) (fileSize : Int) :
    Ends (fun r => TouchesIndex env p r.2) (parseBlockIndexDocument env fileSize p) := by
  refine Outcome.wp_seq (next_ends p.stream _ h) fun r hr => ?_
  obtain ⟨buf, s⟩ := r
  obtain ⟨onward, -⟩ := hr
  cases buf with
  | none => exact ⟨_, _, rfl, (onward.trans (onward_setError onward.good _)).toKeeps, .untouched⟩
  | some v =>
    refine Outcome.wp_seq (Q := fun _ => True) ?_ fun document _ => ?_
    · exact Outcome.wp_seq (load_ends v.mem 0 _) fun _ _ => trivial
    cases document with
    | none => exact ⟨s, _, rfl, onward.toKeeps, .untouched⟩
    | some items =>
      dsimp only
      cases read : readEntries items with
      | mk entries ok =>
        cases ok with
        | false => exact ⟨s, _, rfl, onward.toKeeps, .cut items entries read⟩
        | true =>
          dsimp only
          rw [if_neg (by decide)]
          refine Outcome.wp_seq (validateBlockIndex_spec (p := { p with stream := s, block := _ })
            onward.good env) fun r hr => ?_
          obtain ⟨t, keeps, rfl | ⟨infos, capacity, count, size, rfl⟩⟩ := hr
          · exact ⟨t, _, rfl, onward.toKeeps.trans keeps, .refused items entries read⟩
          · exact ⟨t, _, rfl, onward.toKeeps.trans keeps,
              .adopted items entries read infos size capacity count⟩

theorem parseFoundBlockIndex_spec (h : Good p.stream) (env : Env φ) (fuel : Nat) (fileSize : Int) :
    Outcome.wp (fun e => e ≠ .vector) (fuel = 0 ∨ FindRejects env p fileSize)
      (fun r => TouchesIndex env p r.2) (parseFoundBlockIndex env fuel p fileSize) := by
  refine Outcome.wp_seq (parseFindBlockIndex_spec h env fuel fileSize) fun r hr => ?_
  obtain ⟨res, q⟩ := r
  obtain ⟨s, rfl, keeps⟩ := hr
  cases res with
  | event e =>
    refine Outcome.wp_mono (Outcome.wp_imp (parseBlockIndexDocument_spec
      (p := { p with stream := s }) keeps.good env fileSize) (fun _ => id) False.elim) fun r hr => ?_
    obtain ⟨t, b, eq, moved, read⟩ := hr
    exact ⟨t, b, eq, keeps.trans moved, read⟩
  | error => exact ⟨s, _, rfl, keeps, .untouched⟩
  | «continue» => exact ⟨s, _, rfl, keeps, .untouched⟩

/-- What `parse_block_index` does. -/
def Indexed (env : Env φ) (p : Parser σ φ) (r : ParseResult × Parser σ φ) : Prop :=
  (r = (.continue, { p with state := .treeOrBlock }) ∧ p.isSeekable = false) ∨
  ∃ s b, Keeps p.stream s ∧ IndexRead env p.block b ∧ p.isSeekable ∧
    (r = (.error, { p with stream := s, block := b }) ∨
      r = (r.1, { p with stream := s, block := b, state := .treeOrBlock }))

/-- The first match that `parse_block_index` looks at is rejected. -/
def IndexRejects (env : Env φ) (p : Parser σ φ) : Prop :=
  ∃ q, p.trySeek 0 .end = .ret (true, q) ∧ FindRejects env q (tell q.stream)

theorem parseBlockIndex_spec (h : Good p.stream) (env : Env φ) (fuel : Nat) :
    Outcome.wp (fun e => e ≠ .vector) (fuel = 0 ∨ IndexRejects env p) (Indexed env p)
      (parseBlockIndex env fuel p) := by
  rw [parseBlockIndex]
  split
  · rename_i fixed
    exact .inl ⟨rfl, by simpa using fixed⟩
  rename_i can
  have seekable : p.isSeekable := by simpa using can
  have spec := trySeek_ends h 0 .end
  dsimp only
  cases sought : p.trySeek 0 .end with
  | timeout => exact absurd sought (Outcome.ne_timeout_of_wp spec)
  | fault e =>
    rwa [sought] at spec
  | ret r =>
    obtain ⟨ok, q⟩ := r
    obtain ⟨s, rfl, moved⟩ := Outcome.wp_of_ret spec sought
    cases ok with
    | false => exact .inr ⟨s, _, moved.keeps, .untouched, seekable, .inl rfl⟩
    | true =>
      dsimp only [Outcome.ret_bind]
      rw [if_neg (by decide)]
      refine Outcome.wp_seq (Outcome.wp_imp (parseFoundBlockIndex_spec
        (p := { p with stream := s }) moved.keeps.good env fuel _) (fun _ => id)
        (Or.imp_right fun rejects => ⟨_, sought, rejects⟩)) fun r hr => ?_
      obtain ⟨res, q⟩ := r
      obtain ⟨t, b, rfl, keeps, read⟩ := hr
      refine Outcome.wp_seq (Outcome.wp_imp (trySeek_ends (p := { p with stream := t, block := b })
        keeps.good (tell p.stream) .set) (fun _ => id) False.elim) fun r hr => ?_
      obtain ⟨ok, q⟩ := r
      obtain ⟨u, rfl, back⟩ := hr
      have all := (moved.keeps.trans keeps).trans back.keeps
      cases ok with
      | false => exact .inr ⟨u, b, all, read, seekable, .inl rfl⟩
      | true => exact .inr ⟨u, b, all, read, seekable, .inr rfl⟩

end LibAsdf
