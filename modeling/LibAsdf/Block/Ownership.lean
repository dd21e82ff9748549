import LibAsdf.Block.Session

/-!
# Who owns a block's buffer

A handle may release only what it owns, and no one else refers to that, so
nothing that the file's list refers to is ever released.

* `BlockRun`: calls in any order, of buffers that callers may lend;
* `MemoryInv`, `blockCall_memory`, `blockRun_memory`: the invariant.
-/

namespace LibAsdf

namespace Heap

def Live (h : Heap) (addr : Nat) : Prop := h.lookup addr ≠ none

instance (h : Heap) (addr : Nat) : Decidable (h.Live addr) :=
  inferInstanceAs (Decidable (h.lookup addr ≠ none))

theorem live_of_release {h h' : Heap} {addr a : Nat} (released : h.release addr = .ret h')
    (live : h.Live a) (other : a ≠ addr) : h'.Live a := by
  unfold release at released
  split at released
  · cases released
    rw [Live, lookup] at live ⊢
    rw [List.getElem?_set_ne other.symm]
    exact live
  · cases released

theorem length_release {h h' : Heap} {addr : Nat} (released : h.release addr = .ret h') :
    h'.buffers.length = h.buffers.length := by
  unfold release at released
  split at released
  · cases released
    exact List.length_set
  · cases released

theorem not_live_of_le {h : Heap} {a : Nat} (le : h.buffers.length ≤ a) : ¬ h.Live a := by
  rw [Live, lookup, List.getElem?_eq_none le]
  exact not_not.mpr rfl

theorem live_alloc (h : Heap) (mem : Bytes) : (h.alloc mem).2.Live (h.alloc mem).1 := by
  simp [Live, lookup, alloc]

theorem live_of_alloc {h : Heap} {a : Nat} (live : h.Live a) (mem : Bytes) :
    (h.alloc mem).2.Live a := by
  have inside : a < h.buffers.length := by
    by_contra beyond
    exact not_live_of_le (Nat.le_of_not_lt beyond) live
  rw [Live, lookup] at live ⊢
  rw [alloc, List.getElem?_append_left inside]
  exact live

end Heap

/-! ## Runs -/

/-- The caller lends a buffer that outlives the block: none that a handle owns,
and so may release. -/
def BlockSession.MayLend (s : BlockSession) (data : Option Nat) : Prop :=
  ∀ a, data = some a → s.heap.Live a ∧
    ∀ handle ∈ s.handles, handle.info.dataOwned = true → handle.info.data ≠ some a

def BlockOp.Allowed (s : BlockSession) : BlockOp → Prop
  | create data _ | dataSet _ data _ | dataSetCompressed _ data _ _ _ => s.MayLend data
  | _ => True

/-- No handle is open; the blocks come from the input. -/
structure BlockSession.Fresh (s : BlockSession) : Prop where
  handles : s.handles = []
  blocks : ∀ record ∈ s.file.blocks, record.data = none
  unparsed : ∀ infos, s.file.unparsed = some infos → ∀ record ∈ infos, record.data = none

/-- The sessions that calls reach, each call meeting `ok`. -/
inductive BlockRun (registry : List Compressor) (ok : BlockSession → BlockOp → Prop)
    (start : BlockSession) : List BlockOp → BlockSession → Prop
  | start : BlockRun registry ok start [] start
  | call {s s' : BlockSession} {ops : List BlockOp} (op : BlockOp) :
      BlockRun registry ok start ops s → op.Allowed s → ok s op →
      blockCall registry op s = .ret s' → BlockRun registry ok start (ops ++ [op]) s'

/-! ## The invariant -/

structure MemoryInv (s : BlockSession) : Prop where
  handles_live : ∀ (i : Nat) (handle : BlockHandle), s.handles[i]? = some handle →
    ∀ a, handle.info.data = some a → s.heap.Live a
  blocks_live : ∀ record ∈ s.file.blocks, ∀ a, record.data = some a → s.heap.Live a
  unparsed_none : ∀ infos, s.file.unparsed = some infos → ∀ record ∈ infos, record.data = none
  /-- What a handle owns, no one else refers to. -/
  apart : ∀ (i : Nat) (handle : BlockHandle), s.handles[i]? = some handle →
    handle.info.dataOwned = true → ∀ a, handle.info.data = some a →
      (∀ record ∈ s.file.blocks, record.data ≠ some a) ∧
      ∀ (j : Nat) (handle' : BlockHandle), s.handles[j]? = some handle' → j ≠ i → handle'.info.data ≠ some a

theorem memoryInv_fresh {s : BlockSession} (h : s.Fresh) : MemoryInv s where
  handles_live i handle at_i := by rw [h.handles] at at_i; cases at_i
  blocks_live record mem a eq := by rw [h.blocks record mem] at eq; cases eq
  unparsed_none := h.unparsed
  apart i handle at_i := by rw [h.handles] at at_i; cases at_i

/-- How a call may change the record and the heap of one handle: it releases
only what the handle owns; what the record then refers to is as before, lent, or
new. -/
structure MemoryChange (s : BlockSession) (old info : BlockRecord) (heap : Heap) : Prop where
  keeps : ∀ a, s.heap.Live a → (old.dataOwned = true → old.data ≠ some a) → heap.Live a
  live : ∀ a, info.data = some a → heap.Live a
  refers : ∀ a, info.data = some a →
    info.dataOwned = old.dataOwned ∧ old.data = some a ∨
    info.dataOwned = false ∧
      (∀ handle ∈ s.handles, handle.info.dataOwned = true → handle.info.data ≠ some a) ∨
    ¬ s.heap.Live a

theorem getElem?_set_cases {α : Type} {l : List α} {i j : Nat} {a b : α}
    (h : (l.set i a)[j]? = some b) : j = i ∧ b = a ∨ j ≠ i ∧ l[j]? = some b := by
  by_cases eq : i = j
  · subst eq
    rw [List.getElem?_set_self'] at h
    cases old : l[i]? with
    | none => rw [old] at h; cases h
    | some c =>
      rw [old] at h
      cases h
      exact .inl ⟨rfl, rfl⟩
  · rw [List.getElem?_set_ne eq] at h
    exact .inr ⟨fun h => eq h.symm, h⟩

/-- A call on one handle keeps the invariant. -/
theorem MemoryInv.change {s s' : BlockSession} (inv : MemoryInv s) {h : Nat}
    {handle handle' : BlockHandle} (at_h : s.handles[h]? = some handle)
    (change : MemoryChange s handle.info handle'.info s'.heap)
    (handles : s'.handles = s.handles.set h handle')
    (blocks : ∀ record' ∈ s'.file.blocks, ∃ record ∈ s.file.blocks, record'.data = record.data)
    (unparsed : s'.file.unparsed = s.file.unparsed) : MemoryInv s' where
  handles_live i handle₁ at_i a eq := by
    rw [handles] at at_i
    rcases getElem?_set_cases at_i with ⟨-, rfl⟩ | ⟨ne, at_i⟩
    · exact change.live a eq
    · apply change.keeps a (inv.handles_live i _ at_i a eq)
      intro owned same
      exact (inv.apart h _ at_h owned a same).2 i _ at_i ne eq
  blocks_live record' mem a eq := by
    obtain ⟨record, mem, same⟩ := blocks record' mem
    rw [same] at eq
    apply change.keeps a (inv.blocks_live record mem a eq)
    intro owned same
    exact (inv.apart h _ at_h owned a same).1 record mem eq
  unparsed_none := by rw [unparsed]; exact inv.unparsed_none
  apart i handle₁ at_i owned a eq := by
    rw [handles] at at_i
    have others : ∀ (j : Nat) (handle₂ : BlockHandle), s'.handles[j]? = some handle₂ →
        j = h ∧ handle₂ = handle' ∨ j ≠ h ∧ s.handles[j]? = some handle₂ := by
      intro j handle₂ at_j
      rw [handles] at at_j
      exact getElem?_set_cases at_j
    rcases getElem?_set_cases at_i with ⟨rfl, rfl⟩ | ⟨ne, old_i⟩
    · rcases change.refers a eq with ⟨same, old⟩ | ⟨lent, -⟩ | new
      · obtain ⟨inBlocks, inHandles⟩ := inv.apart i _ at_h (same ▸ owned) a old
        refine ⟨fun record' mem eq' => ?_, fun j handle₂ at_j ne' => ?_⟩
        · obtain ⟨record, mem, same⟩ := blocks record' mem
          exact inBlocks record mem (same ▸ eq')
        · rcases others j _ at_j with ⟨rfl, -⟩ | ⟨-, at_j⟩
          · exact absurd rfl ne'
          · exact inHandles j _ at_j ne'
      · rw [lent] at owned
        cases owned
      · refine ⟨fun record' mem eq' => ?_, fun j handle₂ at_j ne' eq' => ?_⟩
        · obtain ⟨record, mem, same⟩ := blocks record' mem
          exact new (inv.blocks_live record mem a (same ▸ eq'))
        · rcases others j _ at_j with ⟨rfl, -⟩ | ⟨-, at_j⟩
          · exact absurd rfl ne'
          · exact new (inv.handles_live j _ at_j a eq')
    · obtain ⟨inBlocks, inHandles⟩ := inv.apart i _ old_i owned a eq
      refine ⟨fun record' mem eq' => ?_, fun j handle₂ at_j ne' => ?_⟩
      · obtain ⟨record, mem, same⟩ := blocks record' mem
        exact inBlocks record mem (same ▸ eq')
      · rcases others j _ at_j with ⟨rfl, rfl⟩ | ⟨-, at_j⟩
        · intro eq'
          rcases change.refers a eq' with ⟨-, old⟩ | ⟨-, lent⟩ | new
          · exact inHandles j _ at_h ne' old
          · exact lent _ (List.mem_of_getElem? old_i) owned eq
          · exact new (inv.handles_live i _ old_i a eq)
        · exact inHandles j _ at_j ne'

/-! ## The calls -/

/-- What `asdf_block_info_deinit` does: it releases what the record owns. -/
theorem blockInfoDeinit_cases {info info' : BlockRecord} {heap heap' : Heap}
    (h : blockInfoDeinit info heap = .ret (info', heap')) :
    (∀ a, heap.Live a → (info.dataOwned = true → info.data ≠ some a) → heap'.Live a) ∧
      heap'.buffers.length = heap.buffers.length ∧
      (info.dataOwned = false ∧ heap' = heap ∧ info' = { info with dataSize := 0 } ∨
        info.dataOwned = true ∧ info' = { info with
          data := none, dataOwned := false, dataMmapped := false, dataSize := 0 }) := by
  unfold blockInfoDeinit at h
  cases owned : info.dataOwned with
  | false =>
    rw [owned] at h
    cases h
    exact ⟨fun a live _ => live, rfl, .inl ⟨rfl, rfl, rfl⟩⟩
  | true =>
    rw [owned] at h
    obtain ⟨heap₁, released, h⟩ := Outcome.bind_eq_ret.mp h
    cases h
    cases held : info.data with
    | none =>
      rw [held] at released
      cases released
      exact ⟨fun a live _ => live, rfl, .inr ⟨rfl, rfl⟩⟩
    | some addr =>
      rw [held] at released
      refine ⟨fun a live other => ?_, Heap.length_release released, .inr ⟨rfl, rfl⟩⟩
      apply Heap.live_of_release released live
      rintro rfl
      exact other rfl rfl

/-- A lent buffer takes the place of what the record had. -/
theorem memoryChange_lend {s : BlockSession} {old info₁ info : BlockRecord} {heap : Heap}
    {data : Option Nat} (lend : s.MayLend data) (old_mem : ∃ handle ∈ s.handles, handle.info = old)
    (deinit : blockInfoDeinit old s.heap = .ret (info₁, heap)) (eq : info.data = data)
    (lent : info.dataOwned = false) : MemoryChange s old info heap := by
  obtain ⟨keeps, -⟩ := blockInfoDeinit_cases deinit
  obtain ⟨handle, mem, rfl⟩ := old_mem
  refine ⟨keeps, fun a h => ?_, fun a h => ?_⟩
  · obtain ⟨live, notOwned⟩ := lend a (eq ▸ h)
    exact keeps a live fun owned => notOwned handle mem owned
  · exact .inr (.inl ⟨lent, (lend a (eq ▸ h)).2⟩)

theorem memoryChange_alloc {s : BlockSession} {old info : BlockRecord} {heap : Heap} {size : Nat}
    {ptr : Option Nat} (live : ∀ a, old.data = some a → s.heap.Live a)
    (h : blockDataAlloc size old s.heap = .ret (ptr, info, heap)) :
    MemoryChange s old info heap := by
  unfold blockDataAlloc at h
  split at h
  · cases h
    exact ⟨fun a live _ => live, live, fun a eq => .inl ⟨rfl, eq⟩⟩
  · obtain ⟨⟨info₁, heap₁⟩, deinit, h⟩ := Outcome.bind_eq_ret.mp h
    obtain ⟨keeps, length, cases'⟩ := blockInfoDeinit_cases deinit
    dsimp only at h
    split at h
    · cases h
      -- The allocation failed: what the record owned is gone
      rcases cases' with ⟨free, rfl, rfl⟩ | ⟨-, rfl⟩
      · exact ⟨fun a live _ => live, live, fun a eq => .inl ⟨rfl, eq⟩⟩
      · exact ⟨keeps, nofun, nofun⟩
    · cases h
      refine ⟨fun a live other => Heap.live_of_alloc (keeps a live other) _, fun a eq => ?_,
        fun a eq => .inr (.inr ?_)⟩
      · cases eq
        exact heap₁.live_alloc _
      · cases eq
        exact Heap.not_live_of_le (Nat.le_of_eq length.symm)

/-- A setter that writes through leaves the data as it is. -/
theorem writeThrough_cases {s s' : BlockSession} {h : Nat} {handle : BlockHandle}
    {set : BlockRecord → BlockRecord} (run : s.writeThrough h handle set = .ret s') :
    s'.handles = s.handles.set h { handle with info := set handle.info } ∧ s'.heap = s.heap ∧
      s'.file.unparsed = s.file.unparsed ∧
      ((handle.detached = true ∨ handle.info.index = sizeMax) ∧ s'.file = s.file ∨
        handle.detached = false ∧ ∃ record, s.file.blocks[handle.info.index]? = some record ∧
          s'.file.blocks = s.file.blocks.set handle.info.index (set record)) := by
  unfold BlockSession.writeThrough at run
  dsimp only at run
  split at run
  · rename_i appended
    split at run
    · rename_i record found
      cases run
      simp only [Bool.and_eq_true, Bool.not_eq_true'] at appended
      exact ⟨rfl, rfl, rfl, .inr ⟨appended.1, record, found, rfl⟩⟩
    · cases run
  · rename_i apart
    cases run
    refine ⟨rfl, rfl, rfl, .inl ⟨?_, rfl⟩⟩
    cases detached : handle.detached with
    | true => exact .inl rfl
    | false =>
      rw [detached] at apart
      simpa using apart

theorem memory_writeThrough {s s' : BlockSession} (inv : MemoryInv s) {h : Nat}
    {handle : BlockHandle} (at_h : s.handles[h]? = some handle)
    {set : BlockRecord → BlockRecord} (same : ∀ info, (set info).data = info.data ∧
      (set info).dataOwned = info.dataOwned)
    (run : s.writeThrough h handle set = .ret s') : MemoryInv s' := by
  obtain ⟨handles, heap, unparsed, blocks⟩ := writeThrough_cases run
  obtain ⟨data, owned⟩ := same handle.info
  refine inv.change at_h ?_ handles ?_ unparsed
  · rw [heap]
    refine ⟨fun a live _ => live, fun a eq => ?_, fun a eq => .inl ⟨owned, data ▸ eq⟩⟩
    exact inv.handles_live h handle at_h a (data ▸ eq)
  · intro record' mem
    rcases blocks with ⟨-, same⟩ | ⟨-, record, found, eq⟩
    · rw [same] at mem
      exact ⟨record', mem, rfl⟩
    · rw [eq] at mem
      rcases List.mem_or_eq_of_mem_set mem with mem | rfl
      · exact ⟨record', mem, rfl⟩
      · exact ⟨record, List.mem_of_getElem? found, (same record).1⟩

/-- A new handle, with nothing or with a buffer that is lent or its own. -/
theorem MemoryInv.addHandle {s : BlockSession} (inv : MemoryInv s) {info : BlockRecord}
    {heap : Heap} (change : MemoryChange s .fresh info heap) :
    MemoryInv (s.addHandle info heap) := by
  have keeps : ∀ a, s.heap.Live a → heap.Live a := fun a live =>
    change.keeps a live fun owned => nomatch owned
  have cases' : ∀ i handle, (s.handles ++ [⟨info, true⟩])[i]? = some handle →
      s.handles[i]? = some handle ∨ handle = ⟨info, true⟩ ∧ i = s.handles.length := by
    intro i handle at_i
    rcases Nat.lt_or_ge i s.handles.length with lt | ge
    · rw [List.getElem?_append_left lt] at at_i
      exact .inl at_i
    · rw [List.getElem?_append_right ge] at at_i
      have last : i - s.handles.length = 0 := by
        by_contra more
        rw [List.getElem?_eq_none (by simp; omega)] at at_i
        cases at_i
      rw [last] at at_i
      cases at_i
      exact .inr ⟨rfl, by omega⟩
  have refers : ∀ a, info.data = some a → info.dataOwned = true → ¬ s.heap.Live a := by
    intro a eq owned
    rcases change.refers a eq with ⟨-, old⟩ | ⟨lent, -⟩ | new
    · cases old
    · rw [lent] at owned
      cases owned
    · exact new
  refine ⟨fun i handle at_i a eq => ?_, fun record mem a eq => ?_, inv.unparsed_none,
    fun i handle at_i owned a eq => ?_⟩
  · rcases cases' i handle at_i with old | ⟨rfl, -⟩
    · exact keeps a (inv.handles_live i handle old a eq)
    · exact change.live a eq
  · exact keeps a (inv.blocks_live record mem a eq)
  · rcases cases' i handle at_i with old | ⟨rfl, rfl⟩
    · obtain ⟨inBlocks, inHandles⟩ := inv.apart i handle old owned a eq
      refine ⟨inBlocks, fun j handle' at_j ne eq' => ?_⟩
      rcases cases' j handle' at_j with old' | ⟨rfl, -⟩
      · exact inHandles j handle' old' ne eq'
      · rcases change.refers a eq' with ⟨-, old'⟩ | ⟨-, lent⟩ | new
        · cases old'
        · exact lent handle (List.mem_of_getElem? old) owned eq
        · exact new (inv.handles_live i handle old a eq)
    · refine ⟨fun record mem eq' => refers a eq owned (inv.blocks_live record mem a eq'),
        fun j handle' at_j ne eq' => ?_⟩
      rcases cases' j handle' at_j with old' | ⟨-, rfl⟩
      · exact refers a eq owned (inv.handles_live j handle' old' a eq')
      · exact absurd rfl ne

theorem memory_count {s : BlockSession} (inv : MemoryInv s) :
    MemoryInv { s with file := (blockCount s.file).2 } := by
  unfold blockCount
  cases parsed : s.file.unparsed with
  | none => exact inv
  | some infos =>
    have none := inv.unparsed_none infos parsed
    refine ⟨inv.handles_live, fun record mem a eq => ?_, nofun, fun i handle at_i owned a eq => ?_⟩
    · rw [none record mem] at eq
      cases eq
    · refine ⟨fun record mem eq' => ?_, (inv.apart i handle at_i owned a eq).2⟩
      rw [none record mem] at eq'
      cases eq'

/-- Appending gives what the handle owns to the file. -/
theorem memory_append {s : BlockSession} (inv : MemoryInv s) {h : Nat} {handle : BlockHandle}
    (at_h : s.handles[h]? = some handle) : MemoryInv (blockAppend h handle s) := by
  unfold blockAppend
  split
  · exact inv
  · have counted := memory_count inv
    generalize blockCount s.file = r at counted
    obtain ⟨n, file⟩ := r
    dsimp only at counted ⊢
    split
    · exact counted
    · refine ⟨fun i handle' at_i a eq => ?_, fun record mem a eq => ?_, counted.unparsed_none,
        fun i handle' at_i owned a eq => ?_⟩
      · rcases getElem?_set_cases at_i with ⟨-, rfl⟩ | ⟨-, old⟩
        · exact inv.handles_live h handle at_h a eq
        · exact inv.handles_live i handle' old a eq
      · rcases List.mem_append.mp mem with mem | mem
        · exact counted.blocks_live record mem a eq
        · cases List.mem_singleton.mp mem
          exact inv.handles_live h handle at_h a eq
      · rcases getElem?_set_cases at_i with ⟨-, rfl⟩ | ⟨ne, old⟩
        · cases owned
        · obtain ⟨inBlocks, inHandles⟩ := counted.apart i handle' old owned a eq
          refine ⟨fun record mem => ?_, fun j handle₂ at_j ne' => ?_⟩
          · rcases List.mem_append.mp mem with mem | mem
            · exact inBlocks record mem
            · cases List.mem_singleton.mp mem
              exact inHandles h handle at_h (Ne.symm ne)
          · rcases getElem?_set_cases at_j with ⟨rfl, rfl⟩ | ⟨-, old'⟩
            · exact inHandles j handle at_h (Ne.symm ne)
            · exact inHandles j handle₂ old' ne'

theorem blockCallOn_memory {registry : List Compressor} {op : BlockOp} {s s' : BlockSession}
    (inv : MemoryInv s) {h : Nat} {handle : BlockHandle} (at_h : s.handles[h]? = some handle)
    (allowed : op.Allowed s) (run : blockCallOn registry op h handle s = .ret s') :
    MemoryInv s' := by
  have mem : ∃ handle' ∈ s.handles, handle'.info = handle.info :=
    ⟨handle, List.mem_of_getElem? at_h, rfl⟩
  have plain : ∀ {info : BlockRecord} {heap : Heap}, MemoryChange s handle.info info heap →
      MemoryInv (s.setInfo h handle info heap) := fun change =>
    inv.change at_h change rfl (fun record mem => ⟨record, mem, rfl⟩) rfl
  cases op with
  | create data size =>
    cases run
    exact inv
  | append h' =>
    cases run
    exact memory_append inv at_h
  | dataSet h' data size =>
    obtain ⟨⟨info, heap⟩, set, run⟩ := Outcome.bind_eq_ret.mp run
    obtain ⟨⟨info₁, heap₁⟩, deinit, set⟩ := Outcome.bind_eq_ret.mp set
    cases set
    cases run
    exact plain (memoryChange_lend allowed mem deinit rfl rfl)
  | dataAlloc h' size =>
    obtain ⟨⟨ptr, info, heap⟩, alloc, run⟩ := Outcome.bind_eq_ret.mp run
    cases run
    exact plain (memoryChange_alloc (inv.handles_live h handle at_h) alloc)
  | dataSetCompressed h' data size dataSize compression =>
    obtain ⟨⟨info, heap⟩, set, run⟩ := Outcome.bind_eq_ret.mp run
    obtain ⟨⟨info₁, heap₁⟩, deinit, set⟩ := Outcome.bind_eq_ret.mp set
    obtain ⟨field, -, set⟩ := Outcome.bind_eq_ret.mp set
    cases set
    cases run
    exact plain (memoryChange_lend allowed mem deinit rfl rfl)
  | allocatedSizeSet h' allocatedSize =>
    change s.writeThrough h handle (.setAllocatedSize allocatedSize) = .ret s' at run
    apply memory_writeThrough inv at_h _ run
    exact fun _ => ⟨rfl, rfl⟩
  | compressionSet h' compression =>
    change blockCompressionSet registry compression h handle s = .ret s' at run
    unfold blockCompressionSet at run
    cases named : compressorGet registry compression with
    | none =>
      rw [named] at run
      cases run
      exact inv
    | some compressor =>
      rw [named] at run
      change s.writeThrough h handle (.setWriteCompressor compressor) = .ret s' at run
      apply memory_writeThrough inv at_h _ run
      exact fun _ => ⟨rfl, rfl⟩

/-- A buffer for a new handle, unless it is too large. -/
theorem blockDataAlloc_fresh (size : Nat) (heap : Heap) :
    blockDataAlloc size .fresh heap = if size > offMax then .ret (none, .fresh, heap)
      else .ret (some heap.buffers.length, BlockRecord.fresh.own heap.buffers.length size,
        (heap.alloc (List.replicate (max size 1) 0)).2) := by
  unfold blockDataAlloc
  by_cases large : size > offMax
  · simp only [if_pos large]
    rfl
  · simp only [if_neg large]
    rfl

theorem blockCreate_memory {data : Option Nat} {size : Nat} {s s' : BlockSession}
    (inv : MemoryInv s) (lend : s.MayLend data) (run : blockCreate data size s = .ret s') :
    MemoryInv s' := by
  unfold blockCreate at run
  cases data with
  | some addr =>
    obtain ⟨⟨info, heap⟩, set, run⟩ := Outcome.bind_eq_ret.mp run
    cases set
    cases run
    refine inv.addHandle ⟨fun a live _ => live, fun a eq => ?_, fun a eq => ?_⟩
    · exact (lend a eq).1
    · exact .inr (.inl ⟨rfl, (lend a eq).2⟩)
  | none =>
    dsimp only at run
    split at run
    · obtain ⟨⟨ptr, info, heap⟩, alloc, run⟩ := Outcome.bind_eq_ret.mp run
      have none : ∀ a, BlockRecord.fresh.data = some a → s.heap.Live a := nofun
      have change := memoryChange_alloc none alloc
      rw [blockDataAlloc_fresh] at alloc
      split at alloc
      · cases alloc
        cases run
        exact inv
      · cases alloc
        cases run
        exact inv.addHandle change
    · cases run
      exact inv.addHandle ⟨fun a live _ => live, nofun, nofun⟩

theorem blockCall_memory {registry : List Compressor} {op : BlockOp} {s s' : BlockSession}
    (inv : MemoryInv s) (allowed : op.Allowed s) (run : blockCall registry op s = .ret s') :
    MemoryInv s' := by
  cases op with
  | create data size => exact blockCreate_memory inv allowed run
  | _ =>
    simp only [blockCall, BlockOp.handle] at run
    split at run
    · cases run
      exact inv
    · rename_i handle at_h
      exact blockCallOn_memory inv at_h allowed run

/-- Whatever is called in whatever order, no buffer that the file's list refers
to is released. -/
theorem blockRun_memory {registry : List Compressor}
    {ok : BlockSession → BlockOp → Prop} {start s : BlockSession} {ops : List BlockOp}
    (fresh : start.Fresh) (run : BlockRun registry ok start ops s) : MemoryInv s := by
  induction run with
  | start => exact memoryInv_fresh fresh
  | call op _ allowed _ step ih => exact blockCall_memory ih allowed step

end LibAsdf
