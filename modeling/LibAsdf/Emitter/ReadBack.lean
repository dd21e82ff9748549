import LibAsdf.Emitter.Front
import LibAsdf.Emitter.Replace
import LibAsdf.Parser.WholeFile

/-!
# Reading what was written

What the emitter writes is a file that is well formed, and the parser reads it
back.

* `writeStored_recorder`, `blockInfoWrite_recorder`: a block that is recorded;
* `PutFrom`, `emitFlushed_recorder`: the blocks, one after another;
* `Composed`, `Stage`: what has been written as the emitter goes through its states;
* `Describes`, `emission_describes`: the layout of what is written;
* `written_file_read`: what is read back.
-/

namespace LibAsdf

open Endian

/-! ## A block that is recorded -/

theorem paddingLoop_recorder (fuel remaining : Nat) (s : Recorder) (enough : remaining < fuel) :
    ∃ s', Outcome.loop paddingRound fuel (remaining, s) = .ret (true, s') ∧
      s'.bytes = s.bytes ++ List.replicate remaining 0 := by
  induction fuel generalizing remaining s with
  | zero => exact absurd enough (Nat.not_lt_zero _)
  | succ fuel ih =>
    cases remaining with
    | zero => exact ⟨s, rfl, (List.append_nil _).symm⟩
    | succ n =>
      rw [paddingLoop_succ]
      generalize size : (if n + 1 > 512 then 512 else n + 1) = chunk
      have some : 0 < chunk ∧ chunk ≤ n + 1 := by split at size <;> omega
      obtain ⟨s', rest, eq⟩ := ih (n + 1 - chunk) (s.call (.write (List.replicate chunk 0)))
        (by omega)
      refine ⟨s', ?_, ?_⟩
      · refine Eq.trans (if_neg (not_not.mpr ?_)) rest
        exact List.length_replicate
      · rw [eq, s.bytes_write, List.append_assoc, List.replicate_append_replicate,
          Nat.add_sub_cancel' some.2]

theorem writeData_recorder (block : BlockRecord) (stored : BlockStored) (s : Recorder) :
    ∃ s', writeData block s stored = .ret (true, block.setDataPos (OutStream.tell s), s') ∧
      s'.bytes = s.bytes ++ (stored.data ++ List.replicate
        (block.header.allocated stored.data.length - stored.data.length) 0) := by
  have parts : (if stored.data.length > 0 then [stored.data] else []).flatten = stored.data := by
    by_cases some : stored.data.length > 0
    · rw [if_pos some]
      exact List.append_nil _
    · rw [if_neg some]
      exact (List.length_eq_zero_iff.mp (by omega)).symm
  obtain ⟨s₁, data, eq⟩ := writeAll_recorder s (if stored.data.length > 0 then [stored.data] else [])
  obtain ⟨s₂, padding, eq'⟩ := paddingLoop_recorder _ _ s₁ (Nat.lt_succ_self
    (block.header.allocated stored.data.length - stored.data.length))
  refine ⟨s₂, ?_, ?_⟩
  · rw [writeData]
    dsimp only
    rw [data, Outcome.ret_bind]
    dsimp only [writePadding]
    rw [if_neg (by decide)]
    change (Outcome.loop paddingRound _ _ >>= _) = _
    rw [show (block.setDataPos (OutStream.tell s)).header = block.header from rfl, padding]
    rfl
  · rw [eq', eq, parts, List.append_assoc]

/-- A block, and what becomes of its record. -/
theorem writeStored_recorder (md5 : Option Md5) (checksum : Bool) (block : BlockRecord)
    {stored : BlockStored} (s : Recorder) (compression : stored.compression.length = 4)
    (size : block.header.checksum.length = 16) :
    ∃ block' s', writeStored md5 checksum block s stored = .ret (true, block', s') ∧
      s'.bytes = s.bytes ++ blockImage block'.header stored ∧
      (s'.pos ≤ offMax → WrittenRecord md5 checksum block stored s.pos block') := by
  obtain ⟨bytes, length, same⟩ := setChecksum_eq block md5 checksum stored.data size
  have header : (block.setChecksum md5 checksum stored.data).header =
      { block.header with checksum := bytes } := congrArg (·.header) same
  generalize marking : block.setChecksum md5 checksum stored.data = marked at header
  obtain ⟨s₁, first, eq₁⟩ := writeAll_recorder s [blockMagic, beBytes 2 blockHeaderSize,
    beBytes 4 block.header.flags, stored.compression,
    beBytes 8 (block.header.allocated stored.data.length), beBytes 8 stored.data.length,
    beBytes 8 block.header.dataSize]
  obtain ⟨s₂, second, eq₂⟩ := writeAll_recorder s₁ [marked.header.checksum]
  obtain ⟨s₃, third, eq₃⟩ := writeData_recorder (marked.setHeaderPos (OutStream.tell s)) stored s₂
  have image : s₃.bytes = s.bytes ++ blockImage marked.header stored := by
    have allocated : (marked.setHeaderPos (OutStream.tell s)).header.allocated stored.data.length =
        block.header.allocated stored.data.length := by
      change marked.header.allocated _ = _
      rw [header]
      rfl
    rw [eq₃, eq₂, eq₁, allocated, header]
    simp only [blockImage, blockFields, List.flatten_cons, List.flatten_nil, List.append_nil,
      List.append_assoc]
    rfl
  refine ⟨(marked.setHeaderPos (OutStream.tell s)).setDataPos (OutStream.tell s₂), s₃, ?_, image,
    fun small => ?_⟩
  · have placed : (block.setHeaderPos (OutStream.tell s)).header = block.header := rfl
    rw [writeStored]
    dsimp only
    rw [placed, first, Outcome.ret_bind]
    dsimp only
    rw [if_neg (by decide), setChecksum_setHeaderPos, marking]
    change (writeAll s₁ [marked.header.checksum] >>= _) = _
    rw [second, Outcome.ret_bind]
    dsimp only
    rw [if_neg (by decide)]
    exact third
  · have ends : s₂.pos = s.pos + blockHeaderFullSize := by
      rw [Recorder.pos, eq₂, eq₁, header]
      simp only [List.flatten_cons, List.flatten_nil, List.append_nil, List.length_append,
        Endian.length_beBytes, compression, length]
      rfl
    have last : s₂.pos ≤ s₃.pos := by
      rw [Recorder.pos, Recorder.pos, eq₃, List.length_append]
      exact Nat.le_add_right _ _
    have tell {t : Recorder} (le : t.pos ≤ offMax) : OutStream.tell t = (t.pos : Int) :=
      if_neg (Nat.not_lt_of_le le)
    refine ⟨?_, size⟩
    rw [marking, tell (by omega), tell (by omega), ends]

section Blocks

variable {σ : Type} [OpenMem σ] {env : EmitterEnv σ} {checksum : Bool}

theorem blockInfoWrite_recorder {file : WriterFile σ} {heap : Heap} {block block' : BlockRecord}
    {s s' : Recorder} (fits : block.header.Fits)
    (written : blockInfoWrite file heap block s checksum = .ret (true, block', s')) :
    ∃ stored, StoredAs file heap block stored ∧
      s'.bytes = s.bytes ++ blockImage block'.header stored ∧
      (s'.pos ≤ offMax → WrittenRecord file.md5 checksum block stored s.pos block') := by
  obtain ⟨_, -, written⟩ := Outcome.bind_eq_ret.mp written
  obtain ⟨src, source, written⟩ := Outcome.bind_eq_ret.mp written
  cases src with
  | none => cases written
  | some src =>
    obtain ⟨stored, bytes, written⟩ := Outcome.bind_eq_ret.mp written
    cases stored with
    | none => cases written
    | some stored =>
      have as : StoredAs file heap block stored := ⟨src, source, bytes⟩
      obtain ⟨_, _, run, image, record⟩ := writeStored_recorder file.md5 checksum block s
        (as.length_compression fits.compression) fits.checksum
      cases run.symm.trans written
      exact ⟨stored, as, image, record⟩

/-! ## The blocks, one after another -/

/-- A record, what it has become, and the block that was put at `pos` for it. -/
structure PutAt (env : EmitterEnv σ) (before : BlockRecord) (pos : Nat) (after : BlockRecord)
    (b : BlockSection) : Prop where
  stored : StoredAs env.writer env.heap before b.stored
  gap : b.gap = []
  header : b.header = after.header
  kept : after.header = { before.header with checksum := after.header.checksum }
  headerPos : after.headerPos = pos
  dataPos : after.dataPos = (pos + blockHeaderFullSize : Nat)

/-- Records, what they have become, and the blocks that were put from `pos` on for them. -/
inductive PutFrom (env : EmitterEnv σ) : Nat → List BlockRecord → List BlockRecord →
    List BlockSection → Prop
  | nil (pos : Nat) : PutFrom env pos [] [] []
  | cons {pos : Nat} {before after : BlockRecord} {b : BlockSection} {more infos : List BlockRecord}
      {blocks : List BlockSection} : PutAt env before pos after b →
      PutFrom env (pos + b.bytes.length) more infos blocks →
      PutFrom env pos (before :: more) (after :: infos) (b :: blocks)

/-- A record that can be put. -/
structure BlockRecord.Puts (record : BlockRecord) : Prop where
  fits : record.header.Fits
  whole : record.header.streamed = false

theorem PutAt.of_written {before after : BlockRecord} {stored : BlockStored} {pos : Nat}
    (puts : before.Puts) (as : StoredAs env.writer env.heap before stored)
    (record : WrittenRecord env.writer.md5 checksum before stored pos after) :
    ∃ b : BlockSection, PutAt env before pos after b ∧ b.bytes = blockImage after.header stored := by
  have fits : after.header.Fits := by
    rw [record.header]
    exact { puts.fits with checksum := record.checksum_length }
  have whole : after.header.streamed = false := by
    rw [record.header]
    exact puts.whole
  exact ⟨⟨[], after.header, stored, rfl, fits, as.length_compression puts.fits.compression, whole⟩,
    ⟨as, rfl, rfl, record.header, record.headerPos, record.dataPos⟩, rfl⟩

/-- The loop over the blocks puts them one after another. -/
theorem emitFlushed_recorder {blocks infos : List BlockRecord} {s s' : Recorder}
    (puts : ∀ record ∈ blocks, record.Puts)
    (run : emitFlushed env checksum blocks s = .ret (true, infos, s')) (small : s'.pos ≤ offMax) :
    ∃ sections, PutFrom env s.pos blocks infos sections ∧
      s'.bytes = s.bytes ++ blocksBytes sections := by
  induction blocks generalizing s infos with
  | nil =>
    cases run
    exact ⟨[], .nil _, (List.append_nil _).symm⟩
  | cons block more ih =>
    have this := puts block List.mem_cons_self
    obtain ⟨⟨ok, block', s₁⟩, first, run⟩ := Outcome.bind_eq_ret.mp run
    cases ok with
    | false => cases run
    | true =>
      obtain ⟨⟨_, s₂⟩, flushed, run⟩ := Outcome.bind_eq_ret.mp run
      obtain ⟨⟨ok, more', s₃⟩, rest, run⟩ := Outcome.bind_eq_ret.mp run
      cases run
      cases flushed
      obtain ⟨stored, as, image, record⟩ := blockInfoWrite_recorder this.fits first
      obtain ⟨sections, put, bytes⟩ := ih
        (fun record member => puts record (List.mem_cons_of_mem _ member)) rest
      rw [s₁.bytes_flush] at bytes
      have before : s₁.pos ≤ s'.pos := by
        rw [Recorder.pos, Recorder.pos, bytes, List.length_append]
        exact Nat.le_add_right _ _
      obtain ⟨b, at_, eq⟩ := PutAt.of_written this as (record (Nat.le_trans before small))
      have next : s₁.pos = s.pos + b.bytes.length := by
        rw [Recorder.pos, image, List.length_append, eq]
        rfl
      rw [s₁.pos_flush, next] at put
      refine ⟨b :: sections, .cons at_ put, ?_⟩
      rw [bytes, image, ← eq, List.append_assoc]
      rfl

/-! ## The states of the emitter -/

/-- The block index, if any. -/
def IndexText (yaml : YamlEmitter) (records : List BlockRecord) (bytes : Bytes) : Prop :=
  bytes = [] ∨ records ≠ [] ∧ ∃ offsets, blockOffsets records = some offsets ∧
    bytes = blockIndexHeader ++ newline :: (yaml.index offsets).pieces.flatten

theorem emitBlockIndex_recorder {yaml : YamlEmitter} {file : EmitterFile} {blocks : BlockFile}
    {s : Recorder} {r : EmitterState × Recorder}
    (run : emitBlockIndex yaml file blocks s = .ret r) (ok : r.1 ≠ .error) :
    ∃ tail, IndexText yaml blocks.blocks tail ∧ r.2.bytes = s.bytes ++ tail := by
  unfold emitBlockIndex at run
  split at run
  · cases run
    exact ⟨[], .inl rfl, (List.append_nil _).symm⟩
  · rename_i wanted
    have some : blocks.blocks ≠ [] := by
      intro none
      rw [none, List.isEmpty_nil, Bool.or_true] at wanted
      exact wanted rfl
    split at run
    · cases run
      exact absurd rfl ok
    · rename_i offsets eq
      obtain ⟨s₁, header, eq₁⟩ := writeAll_recorder s [blockIndexHeader, [newline]]
      obtain ⟨s₂, index, eq₂⟩ := fyOutput_recorder s₁ (yaml.index offsets).pieces
      rw [header, Outcome.ret_bind] at run
      dsimp only at run
      rw [if_neg (by decide), fyEmitDocument, index] at run
      cases run
      refine ⟨_, .inr ⟨some, offsets, eq, rfl⟩, ?_⟩
      rw [eq₂, eq₁, List.append_assoc]
      rfl

/-- What has been written: the tree, the blocks and what comes after them. -/
structure Composed (env : EmitterEnv σ) (blocks : BlockFile) (records : List BlockRecord)
    (bytes text : Bytes) (sections : List BlockSection) (tail : Bytes) : Prop where
  tree : TreeText env.yaml text
  blocks : PutFrom env (versionComments ++ text).length (ensureBlocks blocks).blocks records
    sections
  bytes : bytes = versionComments ++ (text ++ (blocksBytes sections ++ tail))

/-- What has been written as the emitter comes to a state, where it is small enough. -/
def Stage (env : EmitterEnv σ) (blocks : BlockFile) (e : Emitter Recorder) : Prop :=
  match e.state with
  | .initial | .asdfVersion | .standardVersion | .tree | .blocks =>
    e.blocks = blocks ∧ FrontBytes env.yaml e.stream.bytes e.state
  | .blockIndex => e.stream.pos ≤ offMax → ∃ text sections,
      Composed env blocks e.blocks.blocks e.stream.bytes text sections []
  | .end => e.stream.bytes = [] ∨ (e.stream.pos ≤ offMax → ∃ text sections tail,
      Composed env blocks e.blocks.blocks e.stream.bytes text sections tail ∧
        IndexText env.yaml e.blocks.blocks tail)
  | .error => True

/-- The states up to the blocks. -/
def EmitterState.front : EmitterState → Bool
  | .asdfVersion | .standardVersion | .tree | .blocks => true
  | _ => false

theorem stage_of_front {blocks : BlockFile} {e : Emitter Recorder}
    (front : e.state.front = true ∨ e.state = .error) (same : e.blocks = blocks)
    (bytes : FrontBytes env.yaml e.stream.bytes e.state) : Stage env blocks e := by
  unfold Stage
  obtain front | failed := front
  · cases state : e.state with
    | asdfVersion | standardVersion | tree | blocks =>
      rw [state] at bytes
      exact ⟨same, bytes⟩
    | initial | blockIndex | «end» | error =>
      rw [state] at front
      cases front
  · rw [failed]
    trivial

/-- Before the blocks, a state goes on to one that comes before them. -/
theorem emitState_front {e : Emitter Recorder} {r : EmitterState × Emitter Recorder}
    (front : e.state.front = true) (before : e.state ≠ .blocks) (run : emitState env e = .ret r) :
    r.1.front = true ∨ r.1 = .error := by
  obtain ⟨file, blocks, state, done, s⟩ := e
  cases state with
  | asdfVersion =>
    obtain ⟨r', version, run⟩ := Outcome.bind_eq_ret.mp run
    cases run
    obtain next | failed := emitVersion_next version
    · exact .inl (congrArg EmitterState.front next)
    · exact .inr failed
  | standardVersion =>
    obtain ⟨r', version, run⟩ := Outcome.bind_eq_ret.mp run
    cases run
    obtain next | failed := emitVersion_next version
    · exact .inl (congrArg EmitterState.front next)
    · exact .inr failed
  | tree =>
    obtain ⟨r', tree, run⟩ := Outcome.bind_eq_ret.mp run
    cases run
    obtain next | failed := emitTree_next tree
    · exact .inl (congrArg EmitterState.front next)
    · exact .inr failed
  | blocks => exact absurd rfl before
  | initial | blockIndex | «end» | error => cases front

/-- The blocks are put behind the tree. -/
theorem emitBlocksState_composed {file : EmitterFile} {blocks : BlockFile} {s : Recorder}
    {r : EmitterState × BlockFile × Recorder} {text : Bytes}
    (puts : ∀ record ∈ (ensureBlocks blocks).blocks, record.Puts) (tree : TreeText env.yaml text)
    (bytes : s.bytes = versionComments ++ text) (run : emitBlocksState env file blocks s = .ret r)
    (ok : r.1 ≠ .error) (small : r.2.2.pos ≤ offMax) :
    ∃ sections, Composed env blocks r.2.1.blocks r.2.2.bytes text sections [] := by
  obtain ⟨⟨done, infos, s'⟩, flushed, run⟩ := Outcome.bind_eq_ret.mp run
  cases run
  cases done with
  | false => exact absurd rfl ok
  | true =>
    obtain ⟨sections, put, eq⟩ := emitFlushed_recorder puts flushed small
    refine ⟨sections, tree, ?_, ?_⟩
    · rw [← bytes]
      exact put
    · rw [List.append_nil, ← List.append_assoc, ← bytes]
      exact eq

theorem emitState_stage {blocks : BlockFile} {e : Emitter Recorder}
    {r : EmitterState × Emitter Recorder} (h : Stage env blocks e) (ends : e.EndsDone)
    (going : e.done = false) (puts : ∀ record ∈ (ensureBlocks blocks).blocks, record.Puts)
    (run : emitState env e = .ret r) : Stage env blocks { r.2 with state := r.1 } := by
  have early (front : e.state.front = true) (before : e.state ≠ .blocks)
      (same : e.blocks = blocks) (bytes : FrontBytes env.yaml e.stream.bytes e.state) :
      Stage env blocks { r.2 with state := r.1 } := by
    obtain ⟨same', bytes'⟩ := emitState_begun ⟨same, ends, bytes⟩ before going run
    exact stage_of_front (emitState_front front before run) same' bytes'
  cases state : e.state with
  | initial =>
    unfold Stage at h
    rw [state] at h
    obtain ⟨file', eq | eq⟩ := emitState_initial env e state
    · cases eq.symm.trans run
      exact h
    · cases eq.symm.trans run
      exact .inl h.2
  | asdfVersion | standardVersion | tree =>
    unfold Stage at h
    rw [state] at h early
    exact early rfl (by decide) h.1 h.2
  | blocks =>
    unfold Stage at h
    rw [state] at h
    obtain ⟨same, text, tree, bytes⟩ := h
    unfold emitState at run
    rw [state] at run
    obtain ⟨r', emitted, run⟩ := Outcome.bind_eq_ret.mp run
    cases run
    obtain next | failed := emitBlocksState_next emitted
    · unfold Stage
      rw [next]
      intro small
      rw [same] at emitted
      exact ⟨text, emitBlocksState_composed puts tree bytes emitted (by rw [next]; decide) small⟩
    · unfold Stage
      rw [failed]
      trivial
  | blockIndex =>
    unfold Stage at h
    rw [state] at h
    unfold emitState at run
    rw [state] at run
    obtain ⟨r', emitted, run⟩ := Outcome.bind_eq_ret.mp run
    cases run
    obtain next | failed := emitBlockIndex_next emitted
    · unfold Stage
      rw [next]
      refine .inr fun small => ?_
      obtain ⟨tail, index, eq⟩ := emitBlockIndex_recorder emitted (by rw [next]; decide)
      have before : e.stream.pos ≤ offMax := by
        refine Nat.le_trans ?_ small
        rw [Recorder.pos, Recorder.pos, eq, List.length_append]
        exact Nat.le_add_right _ _
      obtain ⟨text, sections, composed⟩ := h before
      refine ⟨text, sections, tail, ⟨composed.tree, composed.blocks, ?_⟩, index⟩
      change r'.2.bytes = _
      rw [eq, composed.bytes, List.append_nil]
      simp only [List.append_assoc]
    · unfold Stage
      rw [failed]
      trivial
  | «end» =>
    rw [ends.mpr (.inr state)] at going
    cases going
  | error =>
    rw [ends.mpr (.inl state)] at going
    cases going

/-- What a document that is written consists of. -/
theorem emission_composed {file : EmitterFile} {blocks : BlockFile} {e : Emitter Recorder}
    (puts : ∀ record ∈ (ensureBlocks blocks).blocks, record.Puts)
    (run : emission env file blocks = .ret e) (ok : e.state ≠ .error) (some : e.stream.bytes ≠ [])
    (small : e.stream.pos ≤ offMax) : ∃ text sections tail,
      Composed env blocks e.blocks.blocks e.stream.bytes text sections tail ∧
        IndexText env.yaml e.blocks.blocks tail := by
  have step (e : Emitter Recorder) (h : e.EndsDone ∧ Stage env blocks e) :
      Outcome.wp (fun _ => True) True (Outcome.Round (fun e => e.EndsDone ∧ Stage env blocks e)
        (fun e => (e.state = .error ∨ e.state = .end) ∧ Stage env blocks e))
        (emitRound env .end e) := by
    obtain ⟨ends, stage⟩ := h
    unfold emitRound
    split
    · rename_i stops
      rw [Bool.or_eq_true, decide_eq_true_iff] at stops
      exact ⟨stops.elim ends.mp .inr, stage⟩
    · rename_i goes
      have going : e.done = false := by
        cases done : e.done with
        | false => rfl
        | true =>
          rw [done] at goes
          exact absurd rfl goes
      cases one : emitOne env e with
      | ret e' =>
        refine ⟨emitOne_endsDone going one, ?_⟩
        obtain ⟨r, state, one⟩ := Outcome.bind_eq_ret.mp one
        cases one
        exact emitState_stage stage ends going puts state
      | fault f => trivial
      | timeout => trivial
  obtain ⟨stopped, stage⟩ := Outcome.wp_of_ret (Outcome.wp_loop step 8 _
    ⟨(begun_create env.yaml file blocks).ends, rfl, rfl⟩) run
  have state : e.state = .end := stopped.resolve_left ok
  unfold Stage at stage
  rw [state] at stage
  exact stage.resolve_left some small

/-! ## The layout -/

/-- The library's documents end as trees do, and its indexes are UTF-8. -/
structure YamlEmitter.Plain (yaml : YamlEmitter) : Prop where
  tree : ∀ text, yaml.tree = some text → text.whole = true →
    ∃ t : TreeSection, t.gap = [] ∧ t.text = text.pieces.flatten
  index : ∀ offsets, Utf8Leads (yaml.index offsets).pieces.flatten

/-- What is read for a record: its header as it was written, and the bytes it is
stored as where the data is. -/
def ReadBack (env : EmitterEnv σ) (bytes : Bytes) (before after : BlockRecord) (info : BlockInfo) :
    Prop :=
  ∃ stored pos, StoredAs env.writer env.heap before stored ∧
    after.header = { before.header with checksum := after.header.checksum } ∧
    after.headerPos = (pos : Nat) ∧ after.dataPos = info.dataPos ∧
    ReadsAs after.header stored info pos ∧
    (bytes.drop info.dataPos.toNat).take info.header.usedSize = stored.data

/-- The layout of what is written. -/
structure Describes (env : EmitterEnv σ) (blocks : BlockFile) (records : List BlockRecord)
    (content : Bytes) (l : Layout) : Prop where
  bytes : l.bytes = content
  asdfVersion : l.asdfVersion = asdfVersionDefault
  standardVersion : l.standardVersion = asdfStandardDefault
  remarks : l.remarks = []
  tree : TreeText env.yaml l.treeBytes
  written : records.length = (ensureBlocks blocks).blocks.length
  read : l.infos.length = records.length
  blocks : ∀ (idx : Nat) (before after : BlockRecord) (info : BlockInfo),
    (ensureBlocks blocks).blocks[idx]? = some before → records[idx]? = some after →
    l.infos[idx]? = some info → info.index = idx ∧ ReadBack env content before after info

theorem PutFrom.length_records {pos : Nat} {blocks records : List BlockRecord}
    {sections : List BlockSection} (h : PutFrom env pos blocks records sections) :
    records.length = blocks.length := by
  induction h with
  | nil pos => rfl
  | cons at_ more ih => exact congrArg Nat.succ ih

theorem PutFrom.length_sections {pos : Nat} {blocks records : List BlockRecord}
    {sections : List BlockSection} (h : PutFrom env pos blocks records sections) :
    sections.length = records.length := by
  induction h with
  | nil pos => rfl
  | cons at_ more ih => exact congrArg Nat.succ ih

theorem PutFrom.headerPos {pos idx : Nat} {blocks records : List BlockRecord}
    {sections : List BlockSection} (h : PutFrom env pos blocks records sections) :
    (blockInfos pos idx sections).map (·.headerPos) = records.map (·.headerPos) := by
  induction h generalizing idx with
  | nil pos => rfl
  | @cons pos before after b more infos sections at_ rest ih =>
    rw [blockInfos, List.map_cons, List.map_cons, ih, at_.headerPos, at_.gap]
    rfl

theorem PutAt.readBack {before after : BlockRecord} {b : BlockSection} {front rest : Bytes}
    (h : PutAt env before front.length after b) (idx : Nat) :
    ReadBack env (front ++ (b.bytes ++ rest)) before after (b.info idx front.length) := by
  refine ⟨b.stored, front.length, h.stored, h.kept, h.headerPos, h.dataPos,
    ⟨rfl, rfl, congrArg (·.flags) h.header, rfl, ?_, rfl, congrArg (·.dataSize) h.header,
      congrArg (·.checksum) h.header⟩, ?_⟩
  · rw [← h.header]
    exact b.header.allocated_eq_max _
  · have data := (data_blockImage b.compression b.fits.checksum front rest).1
    rw [BlockSection.bytes, h.gap, List.nil_append, ← List.append_assoc]
    exact data

/-- What is put is what is read. -/
theorem PutFrom.readBack {front : Bytes} {pos : Nat} {blocks records : List BlockRecord}
    {sections : List BlockSection} (h : PutFrom env pos blocks records sections) (rest : Bytes)
    (place : front.length = pos) (start idx : Nat) {before after : BlockRecord} {info : BlockInfo}
    (old : blocks[idx]? = some before) (new : records[idx]? = some after)
    (read : (blockInfos pos start sections)[idx]? = some info) :
    info.index = start + idx ∧
      ReadBack env (front ++ (blocksBytes sections ++ rest)) before after info := by
  induction h generalizing front start idx with
  | nil pos => cases old
  | @cons pos first first' b more infos sections at_ put ih =>
    subst place
    have bytes : blocksBytes (b :: sections) ++ rest =
        b.bytes ++ (blocksBytes sections ++ rest) := by
      rw [blocksBytes, List.flatMap_cons, List.append_assoc]
      rfl
    rw [bytes]
    cases idx with
    | zero =>
      cases old
      cases new
      rw [blockInfos, at_.gap] at read
      cases read
      exact ⟨rfl, at_.readBack start⟩
    | succ idx =>
      have next : (front ++ b.bytes).length = front.length + b.bytes.length := List.length_append
      have last := ih next (start + 1) idx old new read
      rw [List.append_assoc] at last
      rw [last.1]
      exact ⟨by omega, last.2⟩

theorem scanTokens_magic_none {bytes : Bytes} (utf8 : Utf8Leads bytes) :
    scanTokens bytes [blockMagic] = none := by
  refine firstMatch_eq_none.mpr fun offset t found => ?_
  obtain ⟨token, entry, rest, eq⟩ := found.begins
  have magic : token = blockMagic := by
    cases t with
    | zero => exact (Option.some.inj entry).symm
    | succ t => cases entry
  rw [magic] at eq
  have eq : bytes.drop offset ++ [] = blockMagic ++ rest := (List.append_nil _).trans eq.symm
  exact absurd found.inside (Nat.not_lt_of_le (utf8.no_magic eq))

theorem scanTokens_magic (rest : Bytes) :
    scanTokens (blockMagic ++ rest) [yamlDirectivePrefix, blockMagic] = some (0, 1) := by
  refine firstMatch_eq_some.mpr ⟨⟨?_, blockMagic, rfl, List.prefix_append _ _⟩, ?_⟩
  · rw [List.length_append]
    exact Nat.lt_of_lt_of_le (by decide : 0 < blockMagic.length) (Nat.le_add_right _ _)
  · intro offset t found
    cases offset with
    | zero =>
      refine .inr ⟨rfl, ?_⟩
      cases t with
      | zero =>
        obtain ⟨token, entry, more, eq⟩ := found.begins
        cases entry
        exact absurd (List.cons_eq_cons.mp eq).1 (by decide)
      | succ t => exact Nat.succ_pos t
    | succ offset => exact .inl (Nat.succ_pos offset)

omit [OpenMem σ] in
theorem IndexText.utf8 {records : List BlockRecord} {tail : Bytes} (plain : env.yaml.Plain)
    (h : IndexText env.yaml records tail) : Utf8Leads tail := by
  obtain rfl | ⟨-, offsets, -, rfl⟩ := h
  · exact fun i lead at_ => absurd at_ (Option.some_ne_none lead).symm
  · have low : ∀ byte ∈ blockIndexHeader ++ [newline], byte < 0xc2 :=
      List.all_iff_forall_prop.mp rfl
    have all := Utf8Leads.ascii_append low (plain.index offsets)
    rw [List.append_assoc] at all
    exact all

theorem TreeSection.begins_directive (t : TreeSection) (plain : t.gap = []) (rest : Bytes) :
    ∃ more, t.bytes ++ rest = 37 :: more := by
  obtain ⟨line, behind, member, eq⟩ := t.begins
  obtain ⟨major, minor, cr, -, -, -, rfl⟩ := mem_directiveExpression.mp member
  rw [TreeSection.bytes, plain, List.nil_append, TreeSection.text, eq]
  exact ⟨_, rfl⟩

omit [OpenMem σ] in
/-- The tree of a layout, from the text that was written. -/
theorem TreeText.section {text : Bytes} (h : TreeText env.yaml text) (plain : env.yaml.Plain) :
    ∃ tree : Option TreeSection, (tree.map (·.bytes)).getD [] = text ∧
      ∀ t, tree = some t → t.gap = [] := by
  obtain rfl | ⟨whole, is, done, rfl⟩ := h
  · exact ⟨none, rfl, fun _ none => absurd none.symm (Option.some_ne_none _)⟩
  · obtain ⟨t, gap, eq⟩ := plain.tree whole is done
    refine ⟨some t, ?_, ?_⟩
    · change t.bytes = _
      rw [TreeSection.bytes, gap, List.nil_append, eq]
    · rintro _ ⟨⟩
      exact gap

/-- Behind the tree there is a block, or nothing. -/
theorem Composed.back {blocks : BlockFile} {records : List BlockRecord} {bytes text tail : Bytes}
    {sections : List BlockSection} (h : Composed env blocks records bytes text sections tail)
    (index : IndexText env.yaml records tail) :
    sections = [] ∧ blocksBytes sections ++ tail = [] ∨
      ∃ b more rest, sections = b :: more ∧ b.gap = [] ∧
        blocksBytes sections ++ tail = blockMagic ++ rest := by
  have put := h.blocks
  generalize (ensureBlocks blocks).blocks = olds at put
  cases put with
  | nil =>
    refine .inl ⟨rfl, ?_⟩
    obtain rfl | ⟨some, -⟩ := index
    · rfl
    · exact absurd rfl some
  | @cons _ _ _ b _ _ more at_ put =>
    obtain ⟨rest, eq⟩ := b.begins (blocksBytes more ++ tail)
    refine .inr ⟨b, more, rest, rfl, at_.gap, ?_⟩
    rw [eq, blocksBytes, List.flatMap_cons, BlockSection.bytes, at_.gap, List.append_assoc]
    rfl

/-- What is written is a file that is well formed. -/
theorem Composed.describes {blocks : BlockFile} {records : List BlockRecord}
    {bytes text tail : Bytes} {sections : List BlockSection}
    (h : Composed env blocks records bytes text sections tail)
    (index : IndexText env.yaml records tail) (plain : env.yaml.Plain)
    (small : bytes.length ≤ offMax) : ∃ l, Describes env blocks records bytes l ∧ l.Fits ∧
      l.infos.map (·.headerPos) = records.map (·.headerPos) := by
  obtain ⟨tree, treeBytes, noGap⟩ := h.tree.section plain
  let l : Layout := {
    asdfVersion := asdfVersionDefault
    standardVersion := asdfStandardDefault
    remarks := []
    tree := tree
    blocks := sections
    tail := tail
    asdfClean := List.all_iff_forall_prop.mp rfl
    standardClean := List.all_iff_forall_prop.mp rfl
    remarked := List.forall_mem_nil _
    quiet := scanTokens_magic_none (index.utf8 plain) }
  have front : l.front = versionComments := rfl
  have place : l.blockPlace = (versionComments ++ text).length := by
    rw [Layout.blockPlace, front, List.length_append, Layout.treeBytes, treeBytes]
  have same : l.bytes = bytes := by
    rw [h.bytes, Layout.bytes, front, Layout.treeBytes, treeBytes]
    rfl
  refine ⟨l, ⟨same, rfl, rfl, rfl, ?_, h.blocks.length_records, ?_, ?_⟩, ⟨?_, ?_, same ▸ small⟩, ?_⟩
  · rw [Layout.treeBytes, treeBytes]
    exact h.tree
  · rw [Layout.infos, blockInfos_length]
    exact h.blocks.length_sections
  · intro idx before after info old new read
    rw [Layout.infos, place] at read
    have back := h.blocks.readBack tail rfl 0 idx old new read
    rw [List.append_assoc, ← h.bytes, Nat.zero_add] at back
    exact back
  · cases is : tree with
    | some t =>
      obtain ⟨more, eq⟩ := t.begins_directive (noGap t is) l.back
      have eq : l.treeBytes ++ l.back = 37 :: more := by
        rw [Layout.treeBytes, show l.tree = some t from is]
        exact eq
      rw [eq]
      rintro _ ⟨⟩
      decide
    | none =>
      have none : l.treeBytes = [] := by
        rw [Layout.treeBytes, show l.tree = none from is]
        rfl
      rw [none, List.nil_append, Layout.back]
      obtain ⟨-, eq⟩ | ⟨b, more, rest, -, -, eq⟩ := h.back index
      · change ∀ b ∈ (blocksBytes sections ++ tail).head?, _
        rw [eq]
        exact fun _ none => absurd none.symm (Option.some_ne_none _)
      · change ∀ b ∈ (blocksBytes sections ++ tail).head?, _
        rw [eq]
        rintro _ ⟨⟩
        decide
  · intro _
    obtain ⟨none, eq⟩ | ⟨b, more, rest, some, gap, eq⟩ := h.back index
    · change scanTokens (blocksBytes sections ++ tail) _ = sections.head?.map _
      rw [eq, none]
      rfl
    · change scanTokens (blocksBytes sections ++ tail) _ = sections.head?.map _
      rw [eq, scanTokens_magic, some, List.head?_cons, Option.map_some, gap]
      rfl
  · rw [Layout.infos, place]
    exact h.blocks.headerPos

/-! ## What is read back -/

variable {φ : Type} {penv : Env φ} {file : EmitterFile} {blocks : BlockFile} {target : TargetFile}
  {content : Bytes} {indexed : Bool} {flags : UInt64}

theorem IndexFound.congr {infos infos' : List BlockInfo}
    (same : infos.map (·.headerPos) = infos'.map (·.headerPos))
    (h : IndexFound penv content infos indexed) : IndexFound penv content infos' indexed := by
  have offsets : (infos.map fun info => some (Int64.ofInt info.headerPos)) =
      infos'.map fun info => some (Int64.ofInt info.headerPos) := by
    have both := congrArg (List.map fun pos => some (Int64.ofInt pos)) same
    rw [List.map_map, List.map_map] at both
    exact both
  cases h with
  | unsearched none => exact .unsearched none
  | absent searched none => exact .absent searched none
  | present front line rest searched ends split before first names =>
    rw [offsets] at names
    exact .present front line rest searched ends split before first names

/-- What is written for a new file is well formed. -/
theorem written_layout (reports : env.yaml.Reports) (plain : env.yaml.Plain)
    (puts : ∀ record ∈ (ensureBlocks blocks).blocks, record.Puts)
    (written : asdfWriteToFile env file blocks target = .ret (0, content))
    (new : target.old = []) (some : content ≠ []) (small : content.length ≤ offMax) :
    ∃ e l, emission env file blocks = .ret e ∧ Describes env blocks e.blocks.blocks content l ∧
      l.Fits ∧ l.infos.map (·.headerPos) = e.blocks.blocks.map (·.headerPos) := by
  obtain ⟨bytes, ⟨calls, ⟨e, run, ok, recorded⟩, eq⟩, whole⟩ := content_of_write reports written
  rw [new, List.drop_nil, List.append_nil] at whole
  subst whole
  have stream : e.stream.bytes = content := by
    rw [Recorder.bytes, recorded, eq]
  subst stream
  obtain ⟨text, sections, tail, composed, index⟩ := emission_composed puts run ok some small
  obtain ⟨l, describes, fits, same⟩ := composed.describes index plain small
  exact ⟨e, l, run, describes, fits, same⟩

/-- **What is written is read back.** Where `asdf_write_to_file` returns zero for a
new file, the parser gives the versions, the tree as the library wrote it, and
every block as it was written, with the bytes that it is stored as. -/
theorem written_file_read (reports : env.yaml.Reports) (plain : env.yaml.Plain)
    (puts : ∀ record ∈ (ensureBlocks blocks).blocks, record.Puts)
    (written : asdfWriteToFile env file blocks target = .ret (0, content))
    (new : target.old = []) (some : content ≠ []) (small : content.length ≤ offMax)
    (exact : penv.vec.Exact)
    (found : ∀ e, emission env file blocks = .ret e →
      IndexFound penv content (e.blocks.blocks.map (·.toBlockInfo)) indexed)
    (noEvents : flags &&& 1 ≠ 1) (more : Nat) :
    ∃ e l, emission env file blocks = .ret e ∧
      Describes env blocks e.blocks.blocks content l ∧
      ParsesAs penv flags (streamFromMemory content) (l.results (flags &&& 2 = 2) indexed more) ∧
      ∀ buf isWriteable, blockIndexHeader.length ≤ buf.length → content.length ≤ buf.length →
        ParsesAs penv flags (streamFromFp content buf true isWriteable)
          (l.results (flags &&& 2 = 2) indexed more) := by
  obtain ⟨e, l, run, describes, fits, same⟩ := written_layout reports plain puts written new some
    small
  have found := found e run
  rw [← describes.bytes] at found
  have found : IndexFound penv l.bytes l.infos indexed := by
    refine IndexFound.congr ?_ found
    rw [List.map_map, same]
    rfl
  refine ⟨e, l, run, describes, ?_, fun buf isWriteable token room => ?_⟩
  · rw [← describes.bytes]
    exact memory_parsesAs fits exact found noEvents more
  · rw [← describes.bytes] at room ⊢
    exact fp_parsesAs fits exact found noEvents more isWriteable token room

end Blocks

/-! ## A document with a tree and a block -/

/-- A library whose documents have an empty tree, and whose indexes are empty. -/
def shortYaml : YamlEmitter where
  tree := some ⟨[shortTree.text], true⟩
  index _ := ⟨[[91, 93, newline]], true⟩
  reports := true

theorem shortYaml_plain : shortYaml.Plain where
  tree text is _ := ⟨shortTree, rfl, by rw [← Option.some.inj is]; rfl⟩
  index _ i lead at_ high :=
    absurd ((List.all_iff_forall_prop (l := [91, 93, newline]) (p := (· < 0xc2))).mp rfl lead
      (List.mem_of_getElem? at_)) (UInt8.not_lt.mpr high)

def writtenEnv : EmitterEnv MemStream := ⟨sampleFile, sampleHeap, shortYaml⟩

def writtenDocument : EmitterFile := { emptyDocument with tree := some ⟨some false⟩ }

def writtenBlocks : BlockFile := ⟨true, none, [sampleRecord]⟩

/-- The block begins at byte 55, the index at byte 114. -/
def writtenContent : Bytes :=
  versionComments ++ shortTree.text ++ blockImage sampleHeader ⟨[1, 2, 3], noCompression⟩ ++
    blockIndexHeader ++ [newline, 91, 93, newline]

def readingEnv : Env Unit := ⟨fyamlOf (some [some 55]), .stc, 4096⟩

theorem writtenContent_indexed {e : Emitter Recorder}
    (run : emission writtenEnv writtenDocument writtenBlocks = .ret e) :
    IndexFound readingEnv writtenContent (e.blocks.blocks.map (·.toBlockInfo)) true := by
  have places : (emission writtenEnv writtenDocument writtenBlocks >>= fun e =>
      .ret (e.blocks.blocks.map (·.headerPos))) = .ret [55] := by decide +kernel
  rw [run] at places
  have same : [BlockInfo.empty 0 55].map (·.headerPos) =
      (e.blocks.blocks.map (·.toBlockInfo)).map (·.headerPos) := by
    rw [List.map_map]
    exact (Outcome.ret.inj places).symm
  refine IndexFound.congr same (.present (writtenContent.take 114) [newline] [91, 93, newline]
    (by decide) (.inl rfl) ?_ ?_ ?_ ?_)
  all_goals decide +kernel

theorem written_file_read_short : ∃ e l,
    emission writtenEnv writtenDocument writtenBlocks = .ret e ∧
      Describes writtenEnv writtenBlocks e.blocks.blocks writtenContent l ∧
      ParsesAs readingEnv 2 (streamFromMemory writtenContent) (l.results true true 1) ∧
      ∀ buf isWriteable, blockIndexHeader.length ≤ buf.length →
        writtenContent.length ≤ buf.length →
        ParsesAs readingEnv 2 (streamFromFp writtenContent buf true isWriteable)
          (l.results true true 1) :=
  written_file_read (show writtenEnv.yaml.Reports from rfl) shortYaml_plain (by
      intro record member
      rw [show record = sampleRecord from List.mem_singleton.mp member]
      exact ⟨sampleHeader_fits, rfl⟩)
    (by decide +kernel : asdfWriteToFile writtenEnv writtenDocument writtenBlocks
      ⟨none, true, 4096⟩ = .ret (0, writtenContent))
    rfl (by decide) (by decide +kernel) (fun _ _ => rfl)
    (fun _ run => writtenContent_indexed run) (by decide) 1

end LibAsdf
