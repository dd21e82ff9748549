import LibAsdf.Block.Ownership

/-!
# Appended blocks and their handles

What a caller has set on a handle is what the emitter finds in the file's list,
in every run in which data is set before the block is appended.

* `BlockSettings`, `BlockOp.Sets`: what is set on the handles, call by call;
* `BlockSettings.Emits`: what is to be written for them;
* `AgreeInv`: the file's records have the settings of the handles;
* `appended_blocks_agree`: every run whose calls meet `BlockOp.StepOk`;
* `late_data_lost`: a run that does not.
-/

namespace LibAsdf

/-! ## Settings -/

/-- What is set on a handle, as far as it is written. -/
structure BlockSettings where
  data : Option Nat
  size : Nat
  compressed : Bool
  compressor : Option Compressor
  compression : Bytes
  dataSize : Nat
  allocatedSize : Nat

namespace BlockSettings

def fresh : BlockSettings where
  data := none
  size := 0
  compressed := false
  compressor := none
  compression := noCompression
  dataSize := 0
  allocatedSize := 0

/-- Uncompressed data. -/
def setData (settings : BlockSettings) (data : Option Nat) (size : Nat) : BlockSettings :=
  { settings with data := data, size := size, compressed := false, dataSize := size }

/-- Data that is compressed already. -/
def setCompressed (settings : BlockSettings) (data : Option Nat) (size dataSize : Nat)
    (compression : Bytes) : BlockSettings :=
  { settings with
    data := data
    size := size
    compressed := true
    compressor := none
    compression := compression
    dataSize := dataSize }

/-- What is to be stored for the settings. -/
def Emits (registry : List Compressor) (heap : Heap) (settings : BlockSettings)
    (stored : BlockStored) : Prop :=
  match settings.data with
  | none => stored = ⟨[], noCompression⟩
  | some addr => ∃ bytes, heap.read addr settings.size = .ret bytes ∧
      match settings.compressor with
      | none => stored = ⟨bytes, if settings.compressed then settings.compression
          else noCompression⟩
      | some compressor => stored.compression = compressor.compression ∧
          ∃ raw, (if settings.compressed then
              blockCompOpen registry settings.compression settings.dataSize bytes =
                some (some raw)
            else raw = bytes) ∧ compressor.comp raw = some stored.data

end BlockSettings

def BlockRecord.settings (info : BlockRecord) : BlockSettings where
  data := info.data
  size := info.dataSize
  compressed := info.dataIsCompressed
  compressor := info.writeCompressor
  compression := info.header.compression
  dataSize := info.header.dataSize
  allocatedSize := info.header.allocatedSize

/-- What a call sets, on all handles. A call that fails sets nothing. -/
def BlockOp.Sets (registry : List Compressor) (op : BlockOp)
    (before after : List BlockSettings) : Prop :=
  match op with
  | create (some addr) size => after = before ++ [BlockSettings.fresh.setData (some addr) size]
  | create none size =>
    if size = 0 then after = before ++ [.fresh]
    else if size ≤ offMax then
      ∃ addr, after = before ++ [BlockSettings.fresh.setData (some addr) size]
    else after = before
  | append _ => after = before
  | dataSet h data size => after = before.modify h (·.setData data size)
  | dataAlloc h size =>
    if size ≤ offMax then ∃ addr, after = before.modify h (·.setData (some addr) size)
    else after = before
  | dataSetCompressed h data size dataSize compression =>
    ∃ field, (h < before.length → compressionField compression = .ret field) ∧
      after = before.modify h (·.setCompressed data size dataSize field)
  | allocatedSizeSet h allocatedSize =>
    after = before.modify h ({ · with allocatedSize := allocatedSize })
  | compressionSet h compression =>
    after = match compressorGet registry compression with
      | some compressor => before.modify h ({ · with compressor := some compressor })
      | none => before

/-- What calls one after another set. -/
inductive SetInTurn (registry : List Compressor) : List BlockOp → List BlockSettings → Prop
  | start : SetInTurn registry [] []
  | call {ops : List BlockOp} {before after : List BlockSettings} (op : BlockOp) :
      SetInTurn registry ops before → op.Sets registry before after →
      SetInTurn registry (ops ++ [op]) after

/-- Data is set on handles that are not appended yet, or is what it was; an
allocation succeeds, or fails on a handle without data. -/
def BlockOp.StepOk (s : BlockSession) (op : BlockOp) : Prop :=
  ∀ h handle, op.handle = some h → s.handles[h]? = some handle →
    match op with
    | dataSet _ data size => handle.detached = true ∨
        handle.info.settings.setData data size = handle.info.settings
    | dataSetCompressed _ data size dataSize compression => handle.detached = true ∨
        ∃ field, compressionField compression = .ret field ∧
          handle.info.settings.setCompressed data size dataSize field = handle.info.settings
    | dataAlloc _ size =>
      if size ≤ offMax then handle.detached = true
      else handle.info.dataOwned = false ∧ handle.info.dataSize = 0
    | _ => True

/-! ## What the writer makes of a record -/

section Emission

variable {σ : Type} [OpenMem σ]

theorem StoredAs.emits {file : WriterFile σ} {heap : Heap} {record : BlockRecord}
    {stored : BlockStored} (as : StoredAs file heap record stored) (unwritten : record.dataPos < 0) :
    record.settings.Emits file.registry heap stored := by
  obtain ⟨src, source, bytes⟩ := as
  unfold BlockSettings.Emits
  simp only [BlockRecord.settings]
  cases data : record.data with
  | none =>
    have none : src = ⟨none, false⟩ := by
      simp only [blockSource, data, Int.not_le_of_gt unwritten, if_false] at source
      split at source <;> (cases source; rfl)
    subst none
    unfold blockStored at bytes
    cases compressor : record.writeCompressor <;> (rw [compressor] at bytes; cases bytes; rfl)
  | some addr =>
    simp only [blockSource, data] at source
    obtain ⟨read, found, source⟩ := Outcome.bind_eq_ret.mp source
    cases source
    refine ⟨read, found, ?_⟩
    unfold blockStored at bytes
    cases compressor : record.writeCompressor with
    | none =>
      rw [compressor] at bytes
      cases bytes
      rfl
    | some c =>
      rw [compressor] at bytes
      dsimp only at bytes ⊢
      by_cases compressed : record.dataIsCompressed = true
      · simp only [compressed, Bool.not_true, Bool.false_eq_true, if_false] at bytes
        split at bytes
        · cases bytes
        · cases bytes
        · rename_i dest opened
          simp only [Outcome.pure_eq, Outcome.ret.injEq, Option.map_eq_some_iff] at bytes
          obtain ⟨out, comp, rfl⟩ := bytes
          exact ⟨rfl, dest, (if_pos compressed).mpr opened, comp⟩
      · simp only [compressed, Bool.not_false, if_true, Outcome.pure_eq, Outcome.ret.injEq,
          Option.map_eq_some_iff] at bytes
        obtain ⟨out, comp, rfl⟩ := bytes
        exact ⟨rfl, read, (if_neg compressed).mpr rfl, comp⟩

end Emission

/-! ## The invariant -/

/-- A record of a block that was built in memory. -/
structure BlockRecord.Built (info : BlockRecord) : Prop where
  compression : info.header.compression.length = 4
  checksum : info.header.checksum.length = 16
  dataPos : info.dataPos = -1
  owned : info.dataOwned = true → info.dataIsCompressed = false ∧
    info.header.dataSize = info.dataSize

def BlockSession.settings (s : BlockSession) : List BlockSettings :=
  s.handles.map (·.info.settings)

/-- The file's record of an appended handle. -/
def BlockFile.Agrees (file : BlockFile) (info : BlockRecord) : Prop :=
  ∃ record, file.blocks[info.index]? = some record ∧ record.Built ∧
    record.settings = info.settings

structure AgreeInv (s : BlockSession) : Prop where
  built : ∀ (i : Nat) (handle : BlockHandle), s.handles[i]? = some handle → handle.info.Built
  appended : ∀ (i : Nat) (handle : BlockHandle), s.handles[i]? = some handle →
    handle.detached = false → handle.info.dataOwned = false ∧ handle.info.index ≠ sizeMax ∧
      s.file.unparsed = none ∧ s.file.Agrees handle.info
  distinct : ∀ (i j : Nat) (handle handle' : BlockHandle), s.handles[i]? = some handle →
    s.handles[j]? = some handle' → handle.detached = false → handle'.detached = false →
    handle.info.index = handle'.info.index → i = j

theorem agreeInv_fresh {s : BlockSession} (h : s.Fresh) : AgreeInv s where
  built i handle at_i := by rw [h.handles] at at_i; cases at_i
  appended i handle at_i := by rw [h.handles] at at_i; cases at_i
  distinct i j handle handle' at_i := by rw [h.handles] at at_i; cases at_i

/-- A call on one handle keeps the invariant, if it leaves the other blocks of
the file as they are, and brings its own block along. -/
theorem AgreeInv.change {s s' : BlockSession} (inv : AgreeInv s) {h : Nat}
    {handle handle' : BlockHandle} (at_h : s.handles[h]? = some handle)
    (handles : s'.handles = s.handles.set h handle') (built : handle'.info.Built)
    (same : handle'.detached = handle.detached ∧ handle'.info.index = handle.info.index)
    (unparsed : s'.file.unparsed = s.file.unparsed)
    (others : ∀ k, (handle.detached = false → k ≠ handle.info.index) →
      s'.file.blocks[k]? = s.file.blocks[k]?)
    (own : handle.detached = false → handle'.info.dataOwned = false ∧
      s'.file.Agrees handle'.info) : AgreeInv s' where
  built i handle₁ at_i := by
    rw [handles] at at_i
    rcases getElem?_set_cases at_i with ⟨-, rfl⟩ | ⟨-, old⟩
    · exact built
    · exact inv.built i handle₁ old
  appended i handle₁ at_i attached := by
    rw [handles] at at_i
    rcases getElem?_set_cases at_i with ⟨rfl, rfl⟩ | ⟨ne, old⟩
    · rw [same.1] at attached
      obtain ⟨-, index, parsed, -⟩ := inv.appended i handle at_h attached
      obtain ⟨free, agrees⟩ := own attached
      exact ⟨free, same.2 ▸ index, unparsed.trans parsed, agrees⟩
    · obtain ⟨free, index, parsed, record, found, agrees⟩ := inv.appended i handle₁ old attached
      refine ⟨free, index, unparsed.trans parsed, record, ?_, agrees⟩
      rw [others _ fun attached' eq => ne ?_]
      · exact found
      · exact inv.distinct i h handle₁ handle old at_h attached attached' eq
  distinct i j handle₁ handle₂ at_i at_j attached attached' eq := by
    rw [handles] at at_i at_j
    rcases getElem?_set_cases at_i with ⟨rfl, rfl⟩ | ⟨ne, old⟩
    · rcases getElem?_set_cases at_j with ⟨rfl, -⟩ | ⟨-, old'⟩
      · rfl
      · rw [same.1] at attached
        rw [same.2] at eq
        exact inv.distinct i j handle handle₂ at_h old' attached attached' eq
    · rcases getElem?_set_cases at_j with ⟨rfl, rfl⟩ | ⟨-, old'⟩
      · rw [same.1] at attached'
        rw [same.2] at eq
        exact inv.distinct i j handle₁ handle old at_h attached attached' eq
      · exact inv.distinct i j handle₁ handle₂ old old' attached attached' eq

/-- A data setter, on a handle that is not appended or without effect. -/
theorem AgreeInv.setInfo {s : BlockSession} (inv : AgreeInv s) {h : Nat} {handle : BlockHandle}
    (at_h : s.handles[h]? = some handle) {info : BlockRecord} (heap : Heap) (built : info.Built)
    (index : info.index = handle.info.index)
    (early : handle.detached = true ∨
      info.dataOwned = false ∧ info.settings = handle.info.settings) :
    AgreeInv (s.setInfo h handle info heap) := by
  have handles : (s.setInfo h handle info heap).handles =
      s.handles.set h { handle with info := info } := rfl
  apply inv.change at_h handles built ⟨rfl, index⟩ rfl fun _ _ => rfl
  intro attached
  rcases early with detached | ⟨free, same⟩
  · rw [detached] at attached
    cases attached
  · obtain ⟨-, -, -, record, found, built', agrees⟩ := inv.appended h handle at_h attached
    refine ⟨free, record, ?_, built', agrees.trans same.symm⟩
    change s.file.blocks[info.index]? = _
    rw [index]
    exact found

/-- A setter that reaches both copies. -/
theorem AgreeInv.writeThrough {s s' : BlockSession} (inv : AgreeInv s) {h : Nat}
    {handle : BlockHandle} (at_h : s.handles[h]? = some handle)
    (set : BlockRecord → BlockRecord) (effect : BlockSettings → BlockSettings)
    (built : ∀ info : BlockRecord, info.Built → (set info).Built)
    (keeps : ∀ info, (set info).index = info.index ∧ (set info).dataOwned = info.dataOwned)
    (sets : ∀ info : BlockRecord, (set info).settings = effect info.settings)
    (run : s.writeThrough h handle set = .ret s') : AgreeInv s' := by
  obtain ⟨handles, -, unparsed, blocks⟩ := writeThrough_cases run
  obtain ⟨index, owned⟩ := keeps handle.info
  refine inv.change at_h handles (built _ (inv.built h handle at_h)) ⟨rfl, index⟩ unparsed
    (fun k other => ?_) fun attached => ?_
  · rcases blocks with ⟨-, same⟩ | ⟨attached, record, -, eq⟩
    · rw [same]
    · rw [eq, List.getElem?_set_ne (other attached).symm]
  · obtain ⟨free, place, -, record, found, built', agrees⟩ :=
      inv.appended h handle at_h attached
    refine ⟨owned.trans free, set record, ?_, built _ built', ?_⟩
    · rcases blocks with ⟨out, -⟩ | ⟨-, record', found', eq⟩
      · rcases out with detached | none
        · rw [detached] at attached
          cases attached
        · exact absurd none place
      · rw [found] at found'
        cases found'
        have inside := (List.getElem?_eq_some_iff.mp found).1
        change s'.file.blocks[(set handle.info).index]? = _
        rw [index, eq, List.getElem?_set_self inside]
    · change (set record).settings = (set handle.info).settings
      rw [sets, sets, agrees]

theorem AgreeInv.addHandle {s : BlockSession} (inv : AgreeInv s) {info : BlockRecord}
    (heap : Heap) (built : info.Built) : AgreeInv (s.addHandle info heap) := by
  have old : ∀ (i : Nat) (handle : BlockHandle), (s.handles ++ [⟨info, true⟩])[i]? = some handle →
      s.handles[i]? = some handle ∨ handle = ⟨info, true⟩ := by
    intro i handle at_i
    rcases Nat.lt_or_ge i s.handles.length with lt | ge
    · rw [List.getElem?_append_left lt] at at_i
      exact .inl at_i
    · rw [List.getElem?_append_right ge] at at_i
      exact .inr (List.mem_singleton.mp (List.mem_of_getElem? at_i))
  refine ⟨fun i handle at_i => ?_, fun i handle at_i attached => ?_,
    fun i j handle handle' at_i at_j attached attached' => ?_⟩
  · rcases old i handle at_i with at_i | rfl
    · exact inv.built i handle at_i
    · exact built
  · rcases old i handle at_i with at_i | rfl
    · exact inv.appended i handle at_i attached
    · cases attached
  · rcases old i handle at_i with at_i | rfl
    · rcases old j handle' at_j with at_j | rfl
      · exact inv.distinct i j handle handle' at_i at_j attached attached'
      · cases attached'
    · cases attached

theorem AgreeInv.count {s : BlockSession} (inv : AgreeInv s) :
    AgreeInv { s with file := (blockCount s.file).2 } := by
  unfold blockCount
  cases parsed : s.file.unparsed with
  | none => exact inv
  | some infos =>
    refine ⟨inv.built, fun i handle at_i attached => ?_, inv.distinct⟩
    have := (inv.appended i handle at_i attached).2.2.1
    rw [parsed] at this
    cases this

/-- Appending makes the file's record from the handle's. -/
theorem AgreeInv.append {s : BlockSession} (inv : AgreeInv s) {h : Nat} {handle : BlockHandle}
    (at_h : s.handles[h]? = some handle) : AgreeInv (blockAppend h handle s) := by
  unfold blockAppend
  split
  · exact inv
  · rename_i ready
    have counted := inv.count
    obtain ⟨length, parsed⟩ := blockCount_eq s.file
    generalize blockCount s.file = r at counted length parsed
    obtain ⟨n, file⟩ := r
    dsimp only at counted length parsed ⊢
    subst length
    split
    · exact counted
    · rename_i few
      have built := inv.built h handle at_h
      have inside : ∀ {k : Nat} {record : BlockRecord}, file.blocks[k]? = some record →
          k < file.blocks.length := fun found => (List.getElem?_eq_some_iff.mp found).1
      refine ⟨fun i handle' at_i => ?_, fun i handle' at_i attached => ?_,
        fun i j handle₁ handle₂ at_i at_j attached attached' eq => ?_⟩
      · rcases getElem?_set_cases at_i with ⟨-, rfl⟩ | ⟨-, old⟩
        · exact ⟨built.compression, built.checksum, built.dataPos, nofun⟩
        · exact inv.built i handle' old
      · rcases getElem?_set_cases at_i with ⟨-, rfl⟩ | ⟨-, old⟩
        · refine ⟨rfl, ?_, parsed, { handle.info with index := file.blocks.length }, ?_,
            ⟨built.compression, built.checksum, built.dataPos, built.owned⟩, rfl⟩
          · have : offMax < sizeMax := by decide
            change file.blocks.length ≠ sizeMax
            omega
          · exact List.getElem?_concat_length
        · obtain ⟨free, index, -, record, found, agrees⟩ :=
            counted.appended i handle' old attached
          refine ⟨free, index, parsed, record, ?_, agrees⟩
          exact (List.getElem?_append_left (inside found)).trans found
      · have apart : ∀ (k : Nat) (handle₃ : BlockHandle), s.handles[k]? = some handle₃ →
            handle₃.detached = false → handle₃.info.index ≠ file.blocks.length := by
          intro k handle₃ at_k attached₃
          obtain ⟨-, -, -, record, found, -⟩ := counted.appended k handle₃ at_k attached₃
          exact Nat.ne_of_lt (inside found)
        rcases getElem?_set_cases at_i with ⟨rfl, rfl⟩ | ⟨-, old⟩
        · rcases getElem?_set_cases at_j with ⟨rfl, -⟩ | ⟨-, old'⟩
          · rfl
          · exact absurd eq.symm (apart j handle₂ old' attached')
        · rcases getElem?_set_cases at_j with ⟨rfl, rfl⟩ | ⟨-, old'⟩
          · exact absurd eq (apart i handle₁ old attached)
          · exact inv.distinct i j handle₁ handle₂ old old' attached attached' eq

/-! ## The calls -/

theorem map_set_eq_modify {α β : Type} {l : List α} {i : Nat} {a b : α} {g : α → β} {f : β → β}
    (at_i : l[i]? = some a) (eq : g b = f (g a)) :
    (l.set i b).map g = (l.map g).modify i f := by
  apply List.ext_getElem?
  intro k
  rw [List.getElem?_map, List.getElem?_modify, List.getElem?_map]
  by_cases same : i = k
  · subst same
    rw [List.getElem?_set_self', at_i]
    simp [eq]
  · rw [List.getElem?_set_ne same]
    cases l[k]? <;> simp [same]

theorem modify_of_none {α β : Type} {l : List α} {i : Nat} (g : α → β) (f : β → β)
    (none : l[i]? = none) : (l.map g).modify i f = l.map g := by
  apply List.ext_getElem?
  intro k
  rw [List.getElem?_modify, List.getElem?_map]
  by_cases same : i = k
  · subst same
    rw [none]
    rfl
  · cases l[k]? <;> simp [same]

theorem compressionField_length {compression : Option Bytes} {field : Bytes}
    (h : compressionField compression = .ret field) : field.length = 4 := by
  unfold compressionField at h
  cases compression with
  | none =>
    cases h
    rfl
  | some mem =>
    obtain ⟨first, -, h⟩ := Outcome.bind_eq_ret.mp h
    split at h
    · cases h
      rfl
    · unfold load at h
      split at h
      · cases h
        rw [List.length_take, List.length_drop]
        omega
      · cases h

/-- What `asdf_block_info_deinit` leaves of a record. -/
theorem blockInfoDeinit_keeps {info info' : BlockRecord} {heap heap' : Heap}
    (h : blockInfoDeinit info heap = .ret (info', heap')) :
    info'.toBlockInfo = info.toBlockInfo ∧ info'.writeCompressor = info.writeCompressor ∧
      (info.dataOwned = false → info.dataSize = 0 → info' = info) := by
  obtain ⟨-, -, ⟨-, -, rfl⟩ | ⟨owned, rfl⟩⟩ := blockInfoDeinit_cases h
  · refine ⟨rfl, rfl, fun _ empty => ?_⟩
    rw [← empty]
  · refine ⟨rfl, rfl, fun free => ?_⟩
    rw [owned] at free
    cases free

theorem settings_ext {info : BlockRecord} {settings : BlockSettings}
    (data : info.data = settings.data) (size : info.dataSize = settings.size)
    (compressed : info.dataIsCompressed = settings.compressed)
    (compressor : info.writeCompressor = settings.compressor)
    (header : info.header.compression = settings.compression ∧
      info.header.dataSize = settings.dataSize ∧
      info.header.allocatedSize = settings.allocatedSize) : info.settings = settings := by
  obtain ⟨compression, dataSize, allocatedSize⟩ := header
  simp only [BlockRecord.settings, data, size, compressed, compressor, compression, dataSize,
    allocatedSize]

/-- A setter of lent data: the record is built, and has the new settings. -/
theorem blockDataSet_sets {info info' : BlockRecord} {heap heap' : Heap} {data : Option Nat}
    {size : Nat} (built : info.Built) (h : blockDataSet data size info heap = .ret (info', heap')) :
    info'.Built ∧ info'.index = info.index ∧ info'.dataOwned = false ∧
      info'.settings = info.settings.setData data size := by
  obtain ⟨⟨info₁, heap₁⟩, deinit, h⟩ := Outcome.bind_eq_ret.mp h
  cases h
  obtain ⟨same, compressor, -⟩ := blockInfoDeinit_keeps deinit
  refine ⟨⟨?_, ?_, ?_, nofun⟩, ?_, rfl, ?_⟩
  · exact (congrArg (·.header.compression.length) same).trans built.compression
  · exact (congrArg (·.header.checksum.length) same).trans built.checksum
  · exact (congrArg (·.dataPos) same).trans built.dataPos
  · exact congrArg (·.index) same
  · exact settings_ext rfl rfl rfl compressor ⟨congrArg (·.header.compression) same, rfl,
      congrArg (·.header.allocatedSize) same⟩

theorem blockDataSetCompressed_sets {info info' : BlockRecord} {heap heap' : Heap}
    {data : Option Nat} {size dataSize : Nat} {compression : Option Bytes} (built : info.Built)
    (h : blockDataSetCompressed data size dataSize compression info heap = .ret (info', heap')) :
    ∃ field, compressionField compression = .ret field ∧ info'.Built ∧ info'.index = info.index ∧
      info'.dataOwned = false ∧
      info'.settings = info.settings.setCompressed data size dataSize field := by
  obtain ⟨⟨info₁, heap₁⟩, deinit, h⟩ := Outcome.bind_eq_ret.mp h
  obtain ⟨field, named, h⟩ := Outcome.bind_eq_ret.mp h
  cases h
  obtain ⟨same, -, -⟩ := blockInfoDeinit_keeps deinit
  refine ⟨field, named, ⟨compressionField_length named, ?_, ?_, nofun⟩, ?_, rfl, ?_⟩
  · exact (congrArg (·.header.checksum.length) same).trans built.checksum
  · exact (congrArg (·.dataPos) same).trans built.dataPos
  · exact congrArg (·.index) same
  · exact settings_ext rfl rfl rfl rfl ⟨rfl, rfl, congrArg (·.header.allocatedSize) same⟩

/-- An allocation that succeeds: a new buffer, or the one that is owned already. -/
theorem blockDataAlloc_sets {info info' : BlockRecord} {heap heap' : Heap} {size : Nat}
    {ptr : Option Nat} (built : info.Built) (small : size ≤ offMax)
    (h : blockDataAlloc size info heap = .ret (ptr, info', heap')) :
    info'.Built ∧ info'.index = info.index ∧
      ∃ addr, info'.settings = info.settings.setData (some addr) size := by
  unfold blockDataAlloc at h
  split at h
  · rename_i again
    cases h
    simp only [BlockRecord.reusable, Bool.and_eq_true, Bool.not_eq_true', decide_eq_true_eq,
      Option.isSome_iff_exists] at again
    obtain ⟨⟨⟨⟨⟨addr, held⟩, owned⟩, -⟩, plain⟩, same⟩ := again
    have whole := (built.owned owned).2
    exact ⟨built, rfl, addr, settings_ext held same plain rfl ⟨rfl, whole.trans same, rfl⟩⟩
  · obtain ⟨⟨info₁, heap₁⟩, deinit, h⟩ := Outcome.bind_eq_ret.mp h
    dsimp only at h
    rw [if_neg (Nat.not_lt_of_le small)] at h
    cases h
    obtain ⟨same, compressor, -⟩ := blockInfoDeinit_keeps deinit
    refine ⟨⟨?_, ?_, ?_, fun _ => ⟨rfl, rfl⟩⟩, ?_, heap₁.buffers.length, ?_⟩
    · exact (congrArg (·.header.compression.length) same).trans built.compression
    · exact (congrArg (·.header.checksum.length) same).trans built.checksum
    · exact (congrArg (·.dataPos) same).trans built.dataPos
    · exact congrArg (·.index) same
    · exact settings_ext rfl rfl rfl compressor ⟨congrArg (·.header.compression) same, rfl,
        congrArg (·.header.allocatedSize) same⟩

/-- An allocation that is too large, on a record without data. -/
theorem blockDataAlloc_fails {info info' : BlockRecord} {heap heap' : Heap} {size : Nat}
    {ptr : Option Nat} (free : info.dataOwned = false) (empty : info.dataSize = 0)
    (large : offMax < size) (h : blockDataAlloc size info heap = .ret (ptr, info', heap')) :
    info' = info := by
  unfold blockDataAlloc at h
  split at h
  · cases h
    rfl
  · obtain ⟨⟨info₁, heap₁⟩, deinit, h⟩ := Outcome.bind_eq_ret.mp h
    simp only at h
    cases h
    exact (blockInfoDeinit_keeps deinit).2.2 free empty

theorem built_fresh : BlockRecord.fresh.Built := ⟨rfl, rfl, rfl, nofun⟩

section Step

variable {registry : List Compressor} {s s' : BlockSession}

theorem settings_setInfo {h : Nat} {handle : BlockHandle} (at_h : s.handles[h]? = some handle)
    {info : BlockRecord} (heap : Heap) {effect : BlockSettings → BlockSettings}
    (sets : info.settings = effect handle.info.settings) :
    (s.setInfo h handle info heap).settings = s.settings.modify h effect :=
  map_set_eq_modify at_h sets

theorem writeThrough_settings {h : Nat} {handle : BlockHandle}
    (at_h : s.handles[h]? = some handle) (set : BlockRecord → BlockRecord)
    (effect : BlockSettings → BlockSettings)
    (sets : ∀ info : BlockRecord, (set info).settings = effect info.settings)
    (run : s.writeThrough h handle set = .ret s') : s'.settings = s.settings.modify h effect := by
  obtain ⟨handles, -⟩ := writeThrough_cases run
  rw [BlockSession.settings, handles]
  exact map_set_eq_modify at_h (sets _)

theorem blockAppend_settings {h : Nat} {handle : BlockHandle}
    (at_h : s.handles[h]? = some handle) : (blockAppend h handle s).settings = s.settings := by
  unfold blockAppend
  split
  · rfl
  · dsimp only
    split
    · rfl
    · apply List.ext_getElem?
      intro k
      change ((s.handles.set h _).map _)[k]? = (s.handles.map _)[k]?
      rw [List.getElem?_map, List.getElem?_map]
      by_cases same : h = k
      · subst same
        rw [List.getElem?_set_self', at_h]
        rfl
      · rw [List.getElem?_set_ne same]

/-- Every call on a handle keeps the agreement, and sets what it is for. -/
theorem blockCallOn_agrees {op : BlockOp} (inv : AgreeInv s) {h : Nat} {handle : BlockHandle}
    (on : op.handle = some h) (at_h : s.handles[h]? = some handle) (ok : op.StepOk s)
    (run : blockCallOn registry op h handle s = .ret s') :
    AgreeInv s' ∧ op.Sets registry s.settings s'.settings := by
  have built := inv.built h handle at_h
  have ok := ok h handle on at_h
  cases op with
  | create data size => cases on
  | append h' =>
    cases run
    exact ⟨inv.append at_h, blockAppend_settings at_h⟩
  | dataSet h' data size =>
    cases on
    obtain ⟨⟨info, heap⟩, set, run⟩ := Outcome.bind_eq_ret.mp run
    cases run
    obtain ⟨built', index, free, sets⟩ := blockDataSet_sets built set
    have early : handle.detached = true ∨
        info.dataOwned = false ∧ info.settings = handle.info.settings :=
      ok.imp_right fun same => ⟨free, sets.trans same⟩
    exact ⟨inv.setInfo at_h heap built' index early, settings_setInfo at_h heap sets⟩
  | dataAlloc h' size =>
    cases on
    obtain ⟨⟨ptr, info, heap⟩, alloc, run⟩ := Outcome.bind_eq_ret.mp run
    cases run
    dsimp only at ok
    by_cases small : size ≤ offMax
    · rw [if_pos small] at ok
      obtain ⟨built', index, addr, sets⟩ := blockDataAlloc_sets built small alloc
      refine ⟨inv.setInfo at_h heap built' index (.inl ok), ?_⟩
      simp only [BlockOp.Sets, if_pos small]
      exact ⟨addr, settings_setInfo at_h heap sets⟩
    · rw [if_neg small] at ok
      obtain ⟨free, empty⟩ := ok
      have same := blockDataAlloc_fails free empty (Nat.lt_of_not_le small) alloc
      subst same
      refine ⟨inv.setInfo at_h heap built rfl (.inr ⟨free, rfl⟩), ?_⟩
      simp only [BlockOp.Sets, if_neg small]
      have unchanged : handle.info.settings = id handle.info.settings := rfl
      rw [settings_setInfo at_h heap unchanged, List.modify_id]
  | dataSetCompressed h' data size dataSize compression =>
    cases on
    obtain ⟨⟨info, heap⟩, set, run⟩ := Outcome.bind_eq_ret.mp run
    cases run
    obtain ⟨field, named, built', index, free, sets⟩ := blockDataSetCompressed_sets built set
    have early : handle.detached = true ∨
        info.dataOwned = false ∧ info.settings = handle.info.settings := by
      rcases ok with detached | ⟨field', named', same⟩
      · exact .inl detached
      · rw [named] at named'
        cases named'
        exact .inr ⟨free, sets.trans same⟩
    exact ⟨inv.setInfo at_h heap built' index early, field, fun _ => named,
      settings_setInfo at_h heap sets⟩
  | allocatedSizeSet h' allocatedSize =>
    cases on
    change s.writeThrough h handle (.setAllocatedSize allocatedSize) = .ret s' at run
    refine ⟨inv.writeThrough at_h (.setAllocatedSize allocatedSize)
      ({ · with allocatedSize := allocatedSize }) ?_
      (fun _ => ⟨rfl, rfl⟩) (fun _ => rfl) run, writeThrough_settings at_h _ _ (fun _ => rfl) run⟩
    exact fun info h => ⟨h.compression, h.checksum, h.dataPos, h.owned⟩
  | compressionSet h' compression =>
    cases on
    change blockCompressionSet registry compression h handle s = .ret s' at run
    unfold blockCompressionSet at run
    simp only [BlockOp.Sets]
    cases named : compressorGet registry compression with
    | none =>
      rw [named] at run
      cases run
      exact ⟨inv, rfl⟩
    | some compressor =>
      rw [named] at run
      change s.writeThrough h handle (.setWriteCompressor compressor) = .ret s' at run
      refine ⟨inv.writeThrough at_h (.setWriteCompressor compressor)
        ({ · with compressor := some compressor }) ?_
        (fun _ => ⟨rfl, rfl⟩) (fun _ => rfl) run,
        writeThrough_settings at_h _ _ (fun _ => rfl) run⟩
      exact fun info h => ⟨h.compression, h.checksum, h.dataPos, h.owned⟩

theorem blockCreate_agrees {data : Option Nat} {size : Nat} (inv : AgreeInv s)
    (run : blockCreate data size s = .ret s') :
    AgreeInv s' ∧ (BlockOp.create data size).Sets registry s.settings s'.settings := by
  have added : ∀ {info : BlockRecord} (heap : Heap),
      (s.addHandle info heap).settings = s.settings ++ [info.settings] := fun _ => List.map_append
  unfold blockCreate at run
  cases data with
  | some addr =>
    obtain ⟨⟨info, heap⟩, set, run⟩ := Outcome.bind_eq_ret.mp run
    cases run
    obtain ⟨built, -, -, sets⟩ := blockDataSet_sets built_fresh set
    refine ⟨inv.addHandle heap built, ?_⟩
    simp only [BlockOp.Sets]
    rw [added, sets]
    rfl
  | none =>
    dsimp only at run
    split at run
    · rename_i some
      obtain ⟨⟨ptr, info, heap⟩, alloc, run⟩ := Outcome.bind_eq_ret.mp run
      rw [blockDataAlloc_fresh] at alloc
      simp only [BlockOp.Sets, if_neg (Nat.ne_of_gt some)]
      by_cases large : size > offMax
      · rw [if_pos large] at alloc
        cases alloc
        cases run
        rw [if_neg (Nat.not_le_of_lt large)]
        exact ⟨inv, rfl⟩
      · rw [if_neg large] at alloc
        cases alloc
        cases run
        rw [if_pos (Nat.le_of_not_lt large)]
        exact ⟨inv.addHandle _ ⟨rfl, rfl, rfl, fun _ => ⟨rfl, rfl⟩⟩, _, added _⟩
    · rename_i none
      have empty : size = 0 := Nat.eq_zero_of_not_pos none
      cases run
      simp only [BlockOp.Sets, if_pos empty]
      exact ⟨inv.addHandle _ built_fresh, added _⟩

/-- On a null handle nothing is set. -/
theorem sets_of_none {op : BlockOp} {h : Nat} (on : op.handle = some h)
    (none : s.handles[h]? = none) : op.Sets registry s.settings s.settings := by
  have same : ∀ f, s.settings.modify h f = s.settings := fun f => modify_of_none _ f none
  have outside : ¬ h < s.settings.length := by
    rw [BlockSession.settings, List.length_map]
    exact Nat.not_lt_of_le (List.getElem?_eq_none_iff.mp none)
  cases op with
  | create data size => cases on
  | append h' => exact Eq.refl s.settings
  | dataSet h' data size =>
    cases on
    exact (same _).symm
  | dataAlloc h' size =>
    cases on
    simp only [BlockOp.Sets]
    split
    · exact ⟨0, (same _).symm⟩
    · trivial
  | dataSetCompressed h' data size dataSize compression =>
    cases on
    exact ⟨noCompression, fun inside => absurd inside outside, (same _).symm⟩
  | allocatedSizeSet h' allocatedSize =>
    cases on
    exact (same _).symm
  | compressionSet h' compression =>
    cases on
    simp only [BlockOp.Sets]
    split
    · exact (same _).symm
    · rfl

theorem blockCall_agrees {op : BlockOp} (inv : AgreeInv s) (ok : op.StepOk s)
    (run : blockCall registry op s = .ret s') :
    AgreeInv s' ∧ op.Sets registry s.settings s'.settings := by
  cases on : op.handle with
  | none =>
    cases op with
    | create data size => exact blockCreate_agrees inv run
    | _ => cases on
  | some h =>
    cases at_h : s.handles[h]? with
    | none =>
      have same : blockCall registry op s = pure s := by
        cases op <;> cases on <;> simp only [blockCall, BlockOp.handle, at_h]
      cases same.symm.trans run
      exact ⟨inv, sets_of_none on at_h⟩
    | some handle =>
      have plain : blockCall registry op s = blockCallOn registry op h handle s := by
        cases op <;> cases on <;> simp only [blockCall, BlockOp.handle, at_h]
      exact blockCallOn_agrees inv on at_h ok (plain.symm.trans run)

end Step

/-! ## Runs -/

theorem blockRun_agrees {registry : List Compressor} {start s : BlockSession}
    {ops : List BlockOp} (fresh : start.Fresh)
    (run : BlockRun registry (fun s op => op.StepOk s) start ops s) :
    AgreeInv s ∧ SetInTurn registry ops s.settings := by
  induction run with
  | start =>
    refine ⟨agreeInv_fresh fresh, ?_⟩
    rw [BlockSession.settings, fresh.handles]
    exact .start
  | call op _ _ ok step ih =>
    obtain ⟨inv, sets⟩ := blockCall_agrees ih.1 ok step
    exact ⟨inv, ih.2.call op sets⟩

/-- Writing a record emits what the settings say. -/
def EmittedAs (settings : BlockSettings) (record : BlockRecord) : Prop :=
  ∀ {σ ω : Type} [OpenMem σ] [OutStream ω] [LawfulOut ω] (file : WriterFile σ) (heap : Heap)
    (checksum : Bool) (out out' : ω) (record' : BlockRecord), OutContent.Open out →
    blockInfoWrite file heap record out checksum = .ret (true, record', out') →
    ∃ stored, settings.Emits file.registry heap stored ∧
      OutContent.Wrote out (blockImage record'.header stored) out' ∧
      record'.header.dataSize = settings.dataSize ∧
      record'.header.allocatedSize = settings.allocatedSize

theorem BlockRecord.Built.emittedAs {record : BlockRecord} (built : record.Built) :
    EmittedAs record.settings record := by
  intro σ ω _ _ _ file heap checksum out out' record' ready written
  obtain ⟨stored, as, wrote, leaves⟩ :=
    blockInfoWrite_wrote ready built.compression built.checksum written
  have unwritten : record.dataPos < 0 := by
    rw [built.dataPos]
    decide
  refine ⟨stored, as.emits unwritten, wrote, ?_, ?_⟩
  · rw [leaves.header]
    rfl
  · rw [leaves.header]
    rfl

/-- In every run whose calls meet their condition: the settings of the handles
are what the calls set in turn; the file's record of each appended handle has
them, and is written as they say; and no buffer that the file's list refers to
has been released. -/
theorem appended_blocks_agree {registry : List Compressor} {start s : BlockSession}
    {ops : List BlockOp} (fresh : start.Fresh)
    (run : BlockRun registry (fun s op => op.StepOk s) start ops s) :
    SetInTurn registry ops s.settings ∧
    (∀ handle ∈ s.handles, handle.detached = false →
      ∃ record, s.file.blocks[handle.info.index]? = some record ∧
        record.settings = handle.info.settings ∧ EmittedAs handle.info.settings record) ∧
    (∀ record ∈ s.file.blocks, ∀ addr, record.data = some addr → s.heap.Live addr) := by
  obtain ⟨inv, inTurn⟩ := blockRun_agrees fresh run
  refine ⟨inTurn, fun handle mem attached => ?_, (blockRun_memory fresh run).blocks_live⟩
  obtain ⟨i, at_i⟩ := List.getElem?_of_mem mem
  obtain ⟨-, -, -, record, found, built, same⟩ := inv.appended i handle at_i attached
  exact ⟨record, found, same, same ▸ built.emittedAs⟩

/-- A file that is open for writing, and a buffer of three bytes. -/
def emptySession : BlockSession where
  file := ⟨true, none, []⟩
  handles := []
  heap := ⟨[some [1, 2, 3]]⟩

theorem emptySession_fresh : emptySession.Fresh := ⟨rfl, nofun, nofun⟩

theorem mayLend_of_handles {s : BlockSession} {addr : Nat} (live : s.heap.Live addr)
    (free : ∀ handle ∈ s.handles, handle.info.dataOwned = false) : s.MayLend (some addr) := by
  intro a eq
  cases eq
  refine ⟨live, fun handle mem owned => ?_⟩
  rw [free handle mem] at owned
  cases owned

theorem appended_blocks_agree_lent : ∃ s handle record, BlockRun [] (fun s op => op.StepOk s)
      emptySession [.create none 0, .dataSet 0 (some 0) 3, .append 0, .allocatedSizeSet 0 8] s ∧
    handle ∈ s.handles ∧ handle.detached = false ∧
    s.file.blocks[handle.info.index]? = some record ∧ record.settings = handle.info.settings ∧
    record.data = some 0 ∧ record.header.allocatedSize = 8 := by
  have run : ∃ s, BlockRun [] (fun s op => op.StepOk s) emptySession
      [.create none 0, .dataSet 0 (some 0) 3, .append 0, .allocatedSizeSet 0 8] s ∧
      ∃ handle, s.handles = [handle] ∧ handle.detached = false ∧
        handle.info.settings.data = some 0 ∧ handle.info.settings.allocatedSize = 8 := by
    refine ⟨_, .call _ (.call _ (.call _ (.call _ .start ?_ ?_ rfl) ?_ ?_ rfl) ?_ ?_ rfl)
      ?_ ?_ rfl, _, rfl, rfl, rfl, rfl⟩
    · exact nofun
    · exact fun h handle on => nomatch on
    · apply mayLend_of_handles
      · decide
      · intro handle mem
        cases List.mem_singleton.mp mem
        rfl
    · intro h handle on at_h
      cases on
      cases at_h
      exact .inl rfl
    · trivial
    · exact fun h handle _ _ => trivial
    · trivial
    · exact fun h handle _ _ => trivial
  obtain ⟨s, run, handle, handles, attached, data, allocated⟩ := run
  have mem : handle ∈ s.handles := by
    rw [handles]
    exact List.mem_singleton.mpr rfl
  obtain ⟨-, agree, -⟩ := appended_blocks_agree emptySession_fresh run
  obtain ⟨record, found, same, -⟩ := agree handle mem attached
  refine ⟨s, handle, record, run, mem, attached, found, same, ?_, ?_⟩
  · rw [← data, ← same]
    rfl
  · rw [← allocated, ← same]
    rfl

/-- Data set on an appended block stays with the handle: the file's record, and
what is written for it, has none. -/
theorem late_data_lost : emptySession.Fresh ∧ ∃ s handle record, BlockRun [] (fun _ _ => True) emptySession
      [.create none 0, .append 0, .dataSet 0 (some 0) 3] s ∧
    handle ∈ s.handles ∧ handle.detached = false ∧
    s.file.blocks[handle.info.index]? = some record ∧
    handle.info.settings.data = some 0 ∧ record.settings.data = none ∧
    ¬ EmittedAs handle.info.settings record := by
  refine ⟨emptySession_fresh, _, _, _,
    .call _ (.call _ (.call _ .start ?_ trivial rfl) ?_ trivial rfl) ?_
    trivial rfl, List.mem_singleton.mpr rfl, rfl, rfl, rfl, rfl, fun emitted => ?_⟩
  · exact nofun
  · trivial
  · apply mayLend_of_handles
    · decide
    · intro handle mem
      cases List.mem_singleton.mp mem
      rfl
  · obtain ⟨stored, emits, wrote, -⟩ := emitted (⟨none, 4096, [], none⟩ : WriterFile MemStream)
      emptySession.heap false (streamFromMalloc []) _ _
      (show OutContent.Open (streamFromMalloc []) from ⟨Nat.le_refl _, by decide⟩) rfl
    obtain ⟨bytes, read, rfl⟩ := emits
    cases read
    have ends := wrote.pos_eq
    exact absurd ends (by decide)

end LibAsdf
