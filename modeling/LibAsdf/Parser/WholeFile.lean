import LibAsdf.Parser.ReadingBlocks

/-!
# Reading a whole file

A parser over a stream that shows all that comes gives the events of a file
that is well formed, in order, and then the null pointer.

* `treeOrBlock_block`, `treeOrBlock_none`: a file without a tree;
* `front_says`, `treeOrBlock_says`: the two halves of a run;
* `file_says`, `well_formed_file_read`: the run.
-/

namespace LibAsdf

open StreamOps ParserStream ReadContent WholeRead

section Run

variable {σ φ : Type} [ParserStream σ] [WholeRead σ] {env : Env φ} {p : Parser σ φ}
  {b : BlockSection} {done rest : Bytes}

/-! ## No tree -/

theorem BlockSection.not_directive (b : BlockSection) (rest : Bytes) :
    ¬ yamlDirectivePrefix <+: b.image ++ rest := by
  obtain ⟨more, begins⟩ := b.begins rest
  rw [← begins]
  intro directive
  obtain ⟨behind, eq⟩ := directive
  exact absurd (List.cons_eq_cons.mp eq).1 (by decide)

/-- Without a tree, the first block comes next. -/
theorem treeOrBlock_block (h : Stands p.stream done (b.bytes ++ rest))
    (found : LibAsdf.scanTokens (b.bytes ++ rest) [yamlDirectivePrefix, blockMagic] =
      some (b.gap.length, 1)) :
    ∃ t, (∀ fuel, parseTreeOrBlock (fuel + 1) p = .ret (.continue, { p with
        stream := t
        tree := { p.tree with hasTree := 0 }
        state := .block })) ∧
      Stands t (done ++ b.gap) (b.image ++ rest) := by
  rw [BlockSection.bytes, List.append_assoc] at h found
  obtain ⟨more, begins⟩ := b.begins rest
  obtain ⟨v, t, run, stands, -, shown, -⟩ := peek_stands h (Nat.zero_le _)
  obtain ⟨v, rfl, shows⟩ := shown.some_of_ne (by
    rw [← begins]
    simp [blockMagic])
  have magic := isBlockMagic_shown shows
  by_cases gap : b.gap = []
  · rw [gap, List.nil_append] at shows stands magic
    rw [decide_eq_true (b.begins rest)] at magic
    rw [gap, List.append_nil]
    refine ⟨t, fun fuel => ?_, stands⟩
    rw [parseTreeOrBlock, run, Outcome.ret_bind]
    dsimp only
    rw [if_neg (Option.some_ne_none v), isYamlDirective_other shows (b.not_directive rest),
      Outcome.ret_bind, if_neg (by decide), magic, Outcome.ret_bind, if_pos rfl]
    rfl
  · have noTree := isYamlDirective_other shows (not_prefix_of_gap found gap List.mem_cons_self)
    rw [decide_eq_false (not_prefix_of_gap found gap
      (List.mem_cons_of_mem _ List.mem_cons_self))] at magic
    have length := b.image_length
    have full : blockHeaderFullSize = 54 := rfl
    obtain ⟨u, scanned, stands', -, -⟩ := scanTokens_stands (p := { p with stream := t })
      [.yamlDirective, .blockMagic] .blockMagic stands (by decide) (by
        rw [List.length_append, List.length_append]
        change 6 ≤ _
        omega) found rfl
    refine ⟨u, fun fuel => ?_, stands'⟩
    rw [parseTreeOrBlock, run, Outcome.ret_bind]
    dsimp only
    rw [if_neg (Option.some_ne_none v), noTree, Outcome.ret_bind, if_neg (by decide), magic,
      Outcome.ret_bind, if_neg (by decide)]
    refine Outcome.loop_of_exit ?_ fuel
    rw [parseTreeOrBlockRound, scanned, Outcome.ret_bind]
    rfl

theorem not_prefix_of_none {tokens : List Bytes} {token : Bytes}
    (none : LibAsdf.scanTokens rest tokens = none) (entry : token ∈ tokens) (held : token ≠ []) :
    ¬ token <+: rest := by
  intro begins
  obtain ⟨t, ht⟩ := List.getElem?_of_mem entry
  refine firstMatch_eq_none.mp none 0 t ⟨?_, token, ht, begins⟩
  exact Nat.lt_of_lt_of_le (List.length_pos_of_ne_nil held) begins.length_le

/-- Without a tree and without blocks the file ends. -/
theorem treeOrBlock_none (h : Stands p.stream done rest)
    (none : LibAsdf.scanTokens rest [yamlDirectivePrefix, blockMagic] = none) :
    ∃ t, (∀ fuel, parseTreeOrBlock (fuel + 1) p =
        .ret (.continue, { p with stream := t, state := .end })) ∧
      OnFile t (done ++ rest) := by
  obtain ⟨v, t, run, stands, -, shown, -⟩ := peek_stands h (Nat.zero_le _)
  cases v with
  | none =>
    refine ⟨t, fun fuel => ?_, stands.onFile⟩
    rw [parseTreeOrBlock, run]
    rfl
  | some v =>
    have noTree := isYamlDirective_other shown
      (not_prefix_of_none none List.mem_cons_self (by decide))
    have magic := isBlockMagic_shown shown
    rw [decide_eq_false (not_prefix_of_none none (List.mem_cons_of_mem _ List.mem_cons_self)
      (by decide))] at magic
    obtain ⟨u, scanned, onFile⟩ := scanTokens_lost (p := { p with stream := t })
      [.yamlDirective, .blockMagic] stands none
    refine ⟨u, fun fuel => ?_, onFile⟩
    rw [parseTreeOrBlock, run, Outcome.ret_bind]
    dsimp only
    rw [if_neg (Option.some_ne_none v), noTree, Outcome.ret_bind, if_neg (by decide), magic,
      Outcome.ret_bind, if_neg (by decide)]
    refine Outcome.loop_of_exit ?_ fuel
    rw [parseTreeOrBlockRound, scanned, Outcome.ret_bind]
    rfl

/-! ## The end -/

/-- The parser is done: all that comes is the null pointer. -/
structure Finished (p : Parser σ φ) : Prop where
  state_eq : p.state = .end
  done_eq : p.done = true

section Steps

variable {f : Nat → Run (ParseResult × Parser σ φ)} {q : Parser σ φ}

omit [WholeRead σ] in
theorem end_says (env : Env φ) (state : p.state = .end) (going : p.done = false) :
    ∃ q, Outcome.Says (parserStep env) p [some .end] q ∧ Finished q := by
  refine ⟨{ p with done := true }, .said ⟨0, fun fuel _ => ?_⟩, state, rfl⟩
  rw [parserStep, state]
  dsimp only
  rw [going]
  rfl

omit [WholeRead σ] in
theorem Finished.gives (h : Finished p) (env : Env φ) (more : Nat) :
    Outcome.Says (parserStep env) p (List.replicate more none) p := by
  induction more with
  | zero => exact .refl p
  | succ more ih =>
    refine .call ⟨0, fun fuel _ => ?_⟩ ih
    rw [parserStep, h.state_eq]
    dsimp only
    rw [h.done_eq]
    rfl

omit [WholeRead σ] in
/-- A state whose handler goes on. -/
theorem goes_of_handler (step : ∀ fuel, parserStep env fuel p = f fuel >>= afterHandler)
    (goes : ∀ fuel, f (fuel + 1) = .ret (.continue, q)) :
    Outcome.Says (parserStep env) p [] q := by
  refine .single ⟨1, fun fuel enough => ?_⟩
  obtain ⟨fuel, rfl⟩ : ∃ n, fuel = n + 1 := ⟨fuel - 1, by omega⟩
  rw [step, goes]
  rfl

omit [WholeRead σ] in
/-- A state whose handler gives an event. -/
theorem gives_of_handler {e : Event}
    (step : ∀ fuel, parserStep env fuel p = f fuel >>= afterHandler)
    (gives : ∀ fuel, f (fuel + 1) = .ret (.event e, q)) :
    Outcome.Says (parserStep env) p [some e] q := by
  refine .said ⟨1, fun fuel enough => ?_⟩
  obtain ⟨fuel, rfl⟩ : ∃ n, fuel = n + 1 := ⟨fuel - 1, by omega⟩
  rw [step, gives]
  rfl

end Steps

/-- The blocks, and the end. -/
theorem blocks_end {indexed : Bool} (exact : env.vec.Exact) {blocks : List BlockSection}
    (state : p.state = .block) (going : p.done = false)
    (h : Stands p.stream done (blocksBytes blocks ++ rest))
    (quiet : LibAsdf.scanTokens rest [blockMagic] = none)
    (table : TableAt indexed (blockInfos done.length 0 blocks) 0 p.block) (some : 0 < done.length) :
    ∃ q, Outcome.Says (parserStep env) p
        ((blockInfos done.length 0 blocks).map (fun info => .some (.block info)) ++ [.some .end]) q ∧
      Finished q := by
  obtain ⟨t, table', read, stands, last, few⟩ := blocks_say exact state h table rfl
    (Nat.zero_le _) some
  obtain ⟨u, table'', ends, -⟩ := parseBlock_ends env
    (p := { p with stream := t, block := table' }) stands quiet last few
  obtain ⟨q, finish, finished⟩ := end_says env
    (p := { p with stream := u, state := .end, block := table'' }) rfl going
  refine ⟨q, read.trans (Outcome.Says.trans (goes_of_handler
    (f := fun _ => parseBlock env { p with stream := t, block := table' }) (fun fuel => ?_)
    fun _ => ends) finish), finished⟩
  rw [parserStep]
  dsimp only
  rw [state]

/-! ## The two halves -/

/-- The versions and the comments. -/
theorem front_says {l : Layout} {s : σ} (env : Env φ) (h : Stands s [] (l.front ++ rest)) (flags : UInt64)
    (stops : ∀ b ∈ rest.head?, b ≠ carriageReturn ∧ b ≠ newline ∧ b ≠ commentChar) :
    ∃ t, Outcome.Says (parserStep env) (parserCreate flags s)
        ([some (.asdfVersion (versionParse l.asdfVersion)),
          some (.standardVersion (versionParse l.standardVersion))] ++
            (l.remarks.flatMap Remark.events).map some)
        { parserCreate flags s with
          state := .blockIndex
          stream := t
          asdfVersion := some (versionParse l.asdfVersion)
          standardVersion := some (versionParse l.standardVersion) } ∧
      Stands t l.front rest := by
  rw [Layout.front, List.append_assoc, List.append_assoc] at h
  let p : Parser σ φ := parserCreate flags s
  obtain ⟨t, read, stands⟩ := parseVersionComment_reads (p := p) h
    (List.all_iff_forall_prop.mp rfl) l.asdfClean
  let q : Parser σ φ := { p with
    stream := t
    asdfVersion := some (versionParse l.asdfVersion)
    state := .standardVersion }
  have first : Outcome.Says (parserStep env) p
      [some (.asdfVersion (versionParse l.asdfVersion))] q :=
    gives_of_handler (f := fun _ => parseAsdfVersion p) (fun _ => rfl) fun _ => by
      rw [parseAsdfVersion, read]
      rfl
  obtain ⟨u, read', stands'⟩ := parseVersionComment_reads (p := q) stands
    (List.all_iff_forall_prop.mp rfl) l.standardClean
  let r : Parser σ φ := { q with
    stream := u
    standardVersion := some (versionParse l.standardVersion)
    state := .comment }
  have second : Outcome.Says (parserStep env) q
      [some (.standardVersion (versionParse l.standardVersion))] r :=
    gives_of_handler (f := fun _ => parseStandardVersion q) (fun _ => rfl) fun _ => by
      rw [parseStandardVersion, read']
      rfl
  obtain ⟨w, more, last⟩ := comments_say env l.remarked stops (p := r) rfl stands'
  refine ⟨w, first.trans (second.trans more), ?_⟩
  rw [List.nil_append, List.append_assoc] at last
  exact last

/-- Without its gap, a block is a block. -/
def BlockSection.bare (b : BlockSection) : BlockSection where
  gap := []
  header := b.header
  stored := b.stored
  quiet := rfl
  fits := b.fits
  compression := b.compression
  whole := b.whole

/-- The tree, if there is one, and the blocks. -/
theorem treeOrBlock_says {indexed : Bool} {l : Layout} (fits : l.Fits) (exact : env.vec.Exact)
    (h : Stands p.stream l.front (l.treeBytes ++ l.back)) (state : p.state = .treeOrBlock)
    (going : p.done = false) (noEvents : p.emitYamlEvents = false) (fresh : p.tree.buf = none)
    (table : TableAt indexed l.infos 0 p.block) :
    ∃ q, Outcome.Says (parserStep env) p
        (((l.tree.map fun t => t.events p.bufferTree l.front.length).getD []).map some ++
          (l.infos.map (fun info => some (.block info)) ++ [some .end])) q ∧ Finished q := by
  have begun : 0 < l.front.length := by
    rw [Layout.front, versionText, List.length_append, List.length_append]
    exact Nat.lt_of_lt_of_le (by decide : 0 < 6) (Nat.le_trans (Nat.le_add_right 6 _)
      (Nat.le_add_right _ _))
  have step : ∀ fuel, parserStep env fuel p = parseTreeOrBlock fuel p >>= afterHandler := by
    intro fuel
    rw [parserStep, state]
  cases has : l.tree with
  | some tree =>
    have bytes : l.treeBytes = tree.bytes := by rw [Layout.treeBytes, has]; rfl
    have place : l.blockPlace = (l.front ++ tree.gap ++ tree.text).length := by
      rw [Layout.blockPlace, bytes, TreeSection.bytes]
      simp only [List.length_append]
      omega
    rw [bytes] at h
    obtain ⟨t, started, stands⟩ := treeOrBlock_tree h
    let q : Parser σ φ := p.atTree t (l.front ++ tree.gap).length
    obtain ⟨u, ended, stands'⟩ := parseTree_reads (p := q) env stands noEvents fresh
    let r : Parser σ φ := q.behindTree u (l.front ++ tree.gap ++ tree.text).length
      (if p.bufferTree then some tree.text else none)
    have first := gives_of_handler step started
    have second := gives_of_handler (p := q) (f := fun fuel => parseTree env fuel q)
      (fun _ => rfl) ended
    have third : Outcome.Says (parserStep env) r [] { r with state := .block } :=
      .single ⟨0, fun _ _ => rfl⟩
    rw [Layout.infos, place] at table ⊢
    obtain ⟨v, last, finished⟩ := blocks_end (p := { r with state := .block }) exact rfl
      going stands' l.quiet table (by
        rw [List.append_assoc, List.length_append]
        exact Nat.lt_of_lt_of_le begun (Nat.le_add_right _ _))
    refine ⟨v, ?_, finished⟩
    have run := first.trans (second.trans (third.trans last))
    have events : ((Option.map (fun t : TreeSection => t.events p.bufferTree l.front.length)
        (some tree)).getD []).map some =
          [some (.treeStart ⟨((l.front ++ tree.gap).length : Nat), 0, none⟩),
            some (.treeEnd ⟨((l.front ++ tree.gap).length : Nat),
              ((l.front ++ tree.gap ++ tree.text).length : Nat),
              if p.bufferTree then some tree.text else none⟩)] := by
      simp only [List.length_append]
      rfl
    rw [events]
    exact run
  | none =>
    have bytes : l.treeBytes = [] := by rw [Layout.treeBytes, has]; rfl
    have treeless := fits.treeless has
    rw [Layout.infos, Layout.blockPlace, bytes, List.length_nil, Nat.add_zero] at table ⊢
    rw [bytes, List.nil_append] at h
    rw [Layout.back] at h treeless
    cases blocks : l.blocks with
    | nil =>
      rw [blocks] at h treeless
      obtain ⟨t, ended, -⟩ := treeOrBlock_none h treeless
      obtain ⟨q, last, finished⟩ := end_says env
        (p := { p with stream := t, state := .end }) rfl going
      exact ⟨q, (goes_of_handler step ended).trans last, finished⟩
    | cons b more =>
      have shape : blocksBytes (b :: more) ++ l.tail = b.bytes ++ (blocksBytes more ++ l.tail) := by
        rw [blocksBytes, List.flatMap_cons, List.append_assoc]
        rfl
      have infos : blockInfos l.front.length 0 (b :: more) =
          blockInfos (l.front ++ b.gap).length 0 (b.bare :: more) := by
        have after : l.front.length + b.bytes.length =
            (l.front ++ b.gap).length + b.bare.bytes.length := by
          simp only [BlockSection.bytes, BlockSection.bare, List.length_append, List.length_nil]
          change _ + (_ + b.image.length) = _ + _ + (0 + b.image.length)
          omega
        rw [blockInfos, blockInfos, after, ← List.length_append]
        rfl
      rw [blocks, shape] at h treeless
      rw [blocks, infos] at table
      obtain ⟨t, started, stands⟩ := treeOrBlock_block h treeless
      have bare : b.image ++ (blocksBytes more ++ l.tail) =
          blocksBytes (b.bare :: more) ++ l.tail := by
        rw [blocksBytes, blocksBytes, List.flatMap_cons, List.append_assoc]
        rfl
      rw [bare] at stands
      obtain ⟨q, last, finished⟩ := blocks_end (p := { p with
        stream := t
        tree := { p.tree with hasTree := 0 }
        state := .block }) exact rfl going stands l.quiet table (by
          rw [List.length_append]
          exact Nat.lt_of_lt_of_le begun (Nat.le_add_right _ _))
      rw [infos]
      exact ⟨q, (goes_of_handler step started).trans last, finished⟩

/-- The events of a file, and then null pointers. -/
theorem file_says {indexed : Bool} {l : Layout} {s : σ} {flags : UInt64} (fits : l.Fits)
    (exact : env.vec.Exact) (found : IndexFound env l.bytes l.infos indexed)
    (h : Stands s [] l.bytes) (noEvents : (parserCreate flags s : Parser σ φ).emitYamlEvents = false)
    (more : Nat) :
    ∃ q, Outcome.Says (parserStep env) (parserCreate flags s)
      (l.results (parserCreate flags s : Parser σ φ).bufferTree indexed more) q := by
  obtain ⟨t, front, stands⟩ := front_says env h flags fits.remarked
  let p : Parser σ φ := { parserCreate flags s with
    state := .blockIndex
    stream := t
    asdfVersion := some (versionParse l.asdfVersion)
    standardVersion := some (versionParse l.standardVersion) }
  have file : l.front ++ (l.treeBytes ++ l.back) =
      (l.front ++ l.treeBytes) ++ (blocksBytes l.blocks ++ l.tail) := (List.append_assoc _ _ _).symm
  have infos : l.infos = blockInfos (l.front ++ l.treeBytes).length 0 l.blocks := by
    rw [List.length_append]
    rfl
  obtain ⟨u, table, index, stands', blocks⟩ := parseBlockIndex_reads (p := p) exact rfl stands file
    infos found
  obtain ⟨q, back, finished⟩ := treeOrBlock_says
    (p := { p with stream := u, state := .treeOrBlock, block := table }) fits exact stands' rfl rfl
    noEvents rfl blocks
  have middle : Outcome.Says (parserStep env) p
      (if indexed then [some (.blockIndex (l.infos.map fun info => .ofInt info.headerPos))] else [])
      { p with stream := u, state := .treeOrBlock, block := table } := by
    cases indexed with
    | true => exact gives_of_handler (fun _ => rfl) index
    | false => exact goes_of_handler (fun _ => rfl) index
  have run := (front.trans (middle.trans back)).trans (finished.gives env more)
  refine ⟨q, ?_⟩
  rw [Layout.results, Layout.events]
  simp only [List.map_append, List.append_assoc, List.map_cons, List.map_nil, List.map_map] at run ⊢
  cases indexed <;> exact run

end Run

/-! ## The run -/

section Files

variable {φ : Type} {env : Env φ} {l : Layout} {indexed : Bool} {flags : UInt64} {bytes buf : Bytes}

/-- The calls of a parser of a stream give these results, with any fuel that is
enough. -/
def ParsesAs {σ : Type} [ParserStream σ] (env : Env φ) (flags : UInt64) (s : σ)
    (results : List (Option Event)) : Prop :=
  ∃ F, ∀ fuel ≥ F, (Outcome.calls (parserStep env fuel) fuel results.length
    (parserCreate flags s)).results = some results

theorem MemStream.stands_streamFromMemory (small : bytes.length ≤ offMax) :
    @Stands MemStream _ wholeMem (streamFromMemory bytes) [] bytes :=
  letI := wholeMem
  ⟨⟨⟨small, rfl⟩, Nat.zero_le _⟩, rfl, rfl, rfl⟩

theorem FileStream.stands_streamFromFp (isWriteable : Bool) (small : bytes.length ≤ offMax)
    (token : blockIndexHeader.length ≤ buf.length) (room : bytes.length ≤ buf.length) :
    @Stands FileStream _ wholeFile (streamFromFp bytes buf true isWriteable) [] bytes :=
  letI := wholeFile
  ⟨⟨⟨token, room, small, rfl⟩, coherent_streamFromFp, Nat.zero_le _, .inl ⟨rfl, rfl⟩⟩, rfl, rfl, rfl⟩

/-- From the start of a file, the calls of the parser give all that is in it. -/
theorem file_parsesAs {σ : Type} [ParserStream σ] [WholeRead σ] {s : σ} (fits : l.Fits)
    (exact : env.vec.Exact) (found : IndexFound env l.bytes l.infos indexed)
    (h : Stands s [] l.bytes) (noEvents : flags &&& 1 ≠ 1) (more : Nat) :
    ParsesAs env flags s (l.results (flags &&& 2 = 2) indexed more) := by
  obtain ⟨_, run⟩ := file_says fits exact found h (decide_eq_false noEvents) more
  obtain ⟨F, _, reads, -⟩ := run.calls_eq
  exact ⟨F, fun fuel enough => congrArg Outcome.results (reads fuel enough)⟩

theorem memory_parsesAs (fits : l.Fits) (exact : env.vec.Exact)
    (found : IndexFound env l.bytes l.infos indexed) (noEvents : flags &&& 1 ≠ 1) (more : Nat) :
    ParsesAs env flags (streamFromMemory l.bytes) (l.results (flags &&& 2 = 2) indexed more) :=
  let := wholeMem
  file_parsesAs fits exact found (MemStream.stands_streamFromMemory fits.small) noEvents more

theorem fp_parsesAs (fits : l.Fits) (exact : env.vec.Exact)
    (found : IndexFound env l.bytes l.infos indexed) (noEvents : flags &&& 1 ≠ 1) (more : Nat)
    (isWriteable : Bool) (token : blockIndexHeader.length ≤ buf.length)
    (room : l.bytes.length ≤ buf.length) :
    ParsesAs env flags (streamFromFp l.bytes buf true isWriteable)
      (l.results (flags &&& 2 = 2) indexed more) :=
  let := wholeFile
  file_parsesAs fits exact found (FileStream.stands_streamFromFp isWriteable fits.small token room)
    noEvents more

/-- **A well-formed file is read back whole.** As many calls of the parser as
the file has events give these events, in order, and all further calls the null
pointer; from memory, and from a file for which the buffer has room. -/
theorem well_formed_file_read (exact : env.vec.Exact) (fits : l.Fits)
    (found : IndexFound env l.bytes l.infos indexed) (noEvents : flags &&& 1 ≠ 1) (more : Nat) :
    ParsesAs env flags (streamFromMemory l.bytes) (l.results (flags &&& 2 = 2) indexed more) ∧
      ∀ buf isWriteable, blockIndexHeader.length ≤ buf.length → l.bytes.length ≤ buf.length →
        ParsesAs env flags (streamFromFp l.bytes buf true isWriteable)
          (l.results (flags &&& 2 = 2) indexed more) :=
  ⟨memory_parsesAs fits exact found noEvents more, fun _ isWriteable token room =>
    fp_parsesAs fits exact found noEvents more isWriteable token room⟩

end Files

/-! ## A file with a tree, a block and a block index -/

/-- `%YAML 1.1\n--- {}\n` -/
def shortBody : Bytes := yamlDirective ++ [newline, 45, 45, 45, 32, 123, 125, newline]

theorem shortBody_begins : StartsDirective (treeText shortBody [newline]) :=
  ⟨yamlDirective ++ [newline], _, mem_directiveExpression.mpr ⟨[49], [49], [],
    ⟨List.cons_ne_nil _ _, List.all_eq_true.mp rfl⟩,
    ⟨List.cons_ne_nil _ _, List.all_eq_true.mp rfl⟩, .inl rfl, rfl⟩, rfl⟩

def shortTree : TreeSection where
  gap := []
  body := shortBody
  lineEnd := [newline]
  quiet := rfl
  begins := shortBody_begins
  ends := .inl rfl
  whole := rfl

def shortHeader : BlockHeader := ⟨48, 0, noCompression, 3, 3, 3, List.replicate 16 0⟩

theorem shortHeader_fits : shortHeader.Fits := by constructor <;> decide

def threeByteBlock : BlockSection where
  gap := [newline]
  header := shortHeader
  stored := ⟨[1, 2, 3], noCompression⟩
  quiet := rfl
  fits := shortHeader_fits
  compression := rfl
  whole := rfl

/-- Versions 1.0.0 and 1.6.0, one block, and an index that begins at byte 113. -/
def shortLayout : Layout where
  asdfVersion := [49, 46, 48, 46, 48]
  standardVersion := [49, 46, 54, 46, 48]
  remarks := []
  tree := some shortTree
  blocks := [threeByteBlock]
  tail := blockIndexHeader ++ [newline, 91, 93, newline]
  asdfClean := List.all_iff_forall_prop.mp rfl
  standardClean := List.all_iff_forall_prop.mp rfl
  remarked := List.forall_mem_nil _
  quiet := rfl

def shortEnv : Env Unit := ⟨fyamlOf (some [some 56]), .stc, 4096⟩

theorem shortLayout_fits : shortLayout.Fits where
  remarked := by decide +kernel
  treeless none := absurd none (Option.some_ne_none _)
  small := by decide +kernel

theorem shortLayout_indexed : IndexFound shortEnv shortLayout.bytes shortLayout.infos true := by
  refine .present (shortLayout.bytes.take 113) [newline] [91, 93, newline] (by decide) (.inl rfl)
    ?_ ?_ ?_ ?_
  all_goals decide +kernel

theorem short_file_read :
    ParsesAs shortEnv 2 (streamFromMemory shortLayout.bytes) (shortLayout.results true true 1) ∧
      ∀ buf isWriteable, blockIndexHeader.length ≤ buf.length →
        shortLayout.bytes.length ≤ buf.length →
        ParsesAs shortEnv 2 (streamFromFp shortLayout.bytes buf true isWriteable)
          (shortLayout.results true true 1) :=
  well_formed_file_read (fun _ _ => rfl) shortLayout_fits shortLayout_indexed (by decide) 1

end LibAsdf
