import LibAsdf.Base.Slots
import LibAsdf.Stream.File

/-!
# Mapped regions

`open_mem` and `close_mem` of a file stream: regions of the file that are mapped
into memory, and the table that remembers them.

* `mmap`, `munmap`: the system, with a table of the pages that are mapped;
* `fileOpenMem`, `fileCloseMem`: the stream;
* `MappedState`: what the table and the pages have to do with the regions that are open;
* `MappedState.opened`, `MappedState.closed`, `MappedRun.holds`: it is so after every run;
* `mapped_regions`: what opening and closing do in every state reached.
-/

namespace LibAsdf

/-! ## The system -/

/-- `sysconf(_SC_PAGESIZE)`, a power of two. -/
structure PageSize where
  bytes : Nat
  bits : Nat
  power : bytes = 2 ^ bits

namespace PageSize

variable (page : PageSize)

/-- `offset & ~(page_size - 1)`. -/
def alignDown (offset : Nat) : Nat := offset - (offset &&& (page.bytes - 1))

def pagesOf (len : Nat) : Nat := (len + (page.bytes - 1)) / page.bytes

theorem bytes_pos : 0 < page.bytes := by
  rw [page.power]
  exact Nat.two_pow_pos _

theorem alignDown_eq (offset : Nat) : page.alignDown offset = page.bytes * (offset / page.bytes) := by
  unfold alignDown
  rw [page.power, Nat.and_two_pow_sub_one_eq_mod]
  have := Nat.div_add_mod offset (2 ^ page.bits)
  omega

theorem sub_alignDown (offset : Nat) : offset - page.alignDown offset = offset % page.bytes := by
  rw [alignDown_eq]
  have := Nat.div_add_mod offset page.bytes
  omega

/-- A byte of a length lies in one of its pages. -/
theorem div_lt_pagesOf {i len : Nat} (h : i < len) : i / page.bytes < page.pagesOf len := by
  unfold pagesOf
  rw [Nat.lt_iff_add_one_le, Nat.le_div_iff_mul_le page.bytes_pos, Nat.add_mul, Nat.one_mul]
  have := Nat.div_mul_le_self i page.bytes
  have := page.bytes_pos
  omega

end PageSize

/-- The page of the file behind each page of memory. -/
abbrev PageTable := Nat → Option Nat

/-- `mmap` of the file, at the address that the system chooses, if it can. -/
def mmap (page : PageSize) (chosen : Option Nat) (pages : PageTable) (len offset : Nat) :
    Option (Nat × PageTable) :=
  if len = 0 then none
  else chosen.map fun addr =>
    (addr, fun p =>
      if addr / page.bytes ≤ p ∧ p < addr / page.bytes + page.pagesOf len then
        some (offset / page.bytes + (p - addr / page.bytes))
      else pages p)

/-- `munmap`, of the pages that the range touches. -/
def munmap (page : PageSize) (pages : PageTable) (addr len : Nat) : Option PageTable :=
  if addr % page.bytes ≠ 0 ∨ len = 0 then none
  else some fun p =>
    if addr / page.bytes ≤ p ∧ p < addr / page.bytes + page.pagesOf len then none else pages p

/-- An address that `mmap` may choose. -/
structure Choosable (page : PageSize) (pages : PageTable) (len addr : Nat) : Prop where
  aligned : addr % page.bytes = 0
  positive : 0 < addr
  unmapped : ∀ p, addr / page.bytes ≤ p → p < addr / page.bytes + page.pagesOf len →
    pages p = none

/-! ## The stream -/

/-- `file_mmap_info_t`. -/
structure MmapInfo where
  addr : Nat
  size : Nat
  offset : Nat
  deriving DecidableEq, Repr

namespace MmapInfo

def free : MmapInfo := ⟨0, 0, 0⟩

def used (info : MmapInfo) : Bool := info.addr != 0

end MmapInfo

def fileStreamInitialMmaps : Nat := 256

/-- A file stream with its table of mappings, null at first, and what its
process has mapped of the file. -/
structure MappedStream extends FileStream where
  mmaps : Option (List MmapInfo)
  pages : PageTable

namespace MappedStream

def setError (s : MappedStream) (code : ErrorCode) : MappedStream :=
  { s with toStreamBase := s.toStreamBase.setError code }

/-- The slots that there are. -/
def slots (s : MappedStream) : List MmapInfo := s.mmaps.getD []

/-- `file_open_mem`: the address, and `avail`. -/
def fileOpenMem (page : PageSize) (chosen : Option Nat) (s : MappedStream) (offset : Int)
    (size : Nat) : Run (Option (Nat × Nat) × MappedStream) := do
  assert s.isSeekable
  let fileSize := s.file.content.length
  let start := sizeAdd 0 offset
  if start > fileSize then
    return (none, s.setError .system)
  let mmaps := s.mmaps.getD (List.replicate fileStreamInitialMmaps MmapInfo.free)
  match reserveSlot MmapInfo.used MmapInfo.free mmaps with
  | none => return (none, { s with mmaps := some mmaps }.setError .outOfMemory)
  | some (mmaps, idx) =>
    let maxAvail := fileSize - start
    let mapSize := if size < maxAvail then size else maxAvail
    let offsetAligned := page.alignDown start
    let offsetDelta := start - offsetAligned
    let mapSizeAligned := mapSize + offsetDelta
    match mmap page chosen s.pages mapSizeAligned offsetAligned with
    | none => return (none, { s with mmaps := some mmaps }.setError .system)
    | some (addr, pages) =>
      let addr := addr + offsetDelta
      return (some (addr, mapSize),
        { s with mmaps := some (mmaps.set idx ⟨addr, mapSizeAligned, start⟩), pages })

/-- `file_close_mem_impl`, without the slot, which it clears. -/
def fileCloseMemImpl (page : PageSize) (s : MappedStream) (info : MmapInfo) : Int × MappedStream :=
  let offsetDelta := info.offset - page.alignDown info.offset
  match munmap page s.pages (info.addr - offsetDelta) info.size with
  | none => (-1, s.setError .system)
  | some pages => (0, { s with pages })

/-- `file_close_mem`. -/
def fileCloseMem (page : PageSize) (s : MappedStream) (addr : Nat) : Int × MappedStream :=
  match s.slots.findIdx? (fun info => addr == info.addr) with
  | none => (-1, s.setError .system)
  | some idx =>
    let r := fileCloseMemImpl page s (s.slots.getD idx .free)
    (r.1, { r.2 with mmaps := s.mmaps.map (·.set idx .free) })

/-- The byte at an address, if its page is mapped. Behind the end of the file
the last page reads zero. -/
def byteAt (page : PageSize) (s : MappedStream) (addr : Nat) : Option UInt8 :=
  (s.pages (addr / page.bytes)).map fun p =>
    s.file.content.getD (page.bytes * p + addr % page.bytes) 0

end MappedStream

/-! ## Regions -/

/-- A region of the file that is mapped, from where it was asked for. -/
structure Region where
  addr : Nat
  offset : Nat
  size : Nat
  deriving DecidableEq, Repr

namespace Region

variable (page : PageSize) (r : Region)

/-- The bytes from the start of the page. -/
def aligned : Nat := r.size + r.offset % page.bytes

def info : MmapInfo := ⟨r.addr, r.aligned page, r.offset⟩

/-- The pages of memory that are mapped for it. -/
def Covers (p : Nat) : Prop :=
  r.addr / page.bytes ≤ p ∧ p < r.addr / page.bytes + page.pagesOf (r.aligned page)

instance (p : Nat) : Decidable (r.Covers page p) := by
  unfold Covers
  infer_instance

def filePage (p : Nat) : Nat := r.offset / page.bytes + (p - r.addr / page.bytes)

/-- A region of a file of `fileSize` bytes. -/
structure Regular (fileSize : Nat) : Prop where
  delta : r.addr % page.bytes = r.offset % page.bytes
  positive : 0 < r.addr
  nonempty : 0 < r.aligned page
  inside : r.offset + r.size ≤ fileSize

end Region

variable {page : PageSize} {r : Region} {s t : MappedStream} {regions : List Region}

theorem pagesOf_pos {len : Nat} (some : 0 < len) : 0 < page.pagesOf len :=
  Nat.lt_of_le_of_lt (Nat.zero_le _) (page.div_lt_pagesOf some)

theorem Region.Regular.covers_addr {n : Nat} (h : r.Regular page n) :
    r.Covers page (r.addr / page.bytes) :=
  ⟨Nat.le_refl _, Nat.lt_add_of_pos_right (pagesOf_pos h.nonempty)⟩

/-- A byte of the region lies in one of its pages, as far into it as the byte
of the file. -/
theorem Region.Regular.byte {n i : Nat} (h : r.Regular page n) (lt : i < r.size) :
    r.Covers page ((r.addr + i) / page.bytes) ∧
      page.bytes * r.filePage page ((r.addr + i) / page.bytes) + (r.addr + i) % page.bytes =
        r.offset + i := by
  have pos := page.bytes_pos
  have delta := h.delta
  have start : r.addr + i =
      page.bytes * (r.addr / page.bytes) + (r.offset % page.bytes + i) := by
    have := Nat.div_add_mod r.addr page.bytes
    omega
  have quotient : (r.addr + i) / page.bytes =
      r.addr / page.bytes + (r.offset % page.bytes + i) / page.bytes := by
    rw [start, Nat.mul_add_div pos]
  have rest : (r.addr + i) % page.bytes = (r.offset % page.bytes + i) % page.bytes := by
    rw [start, Nat.mul_add_mod]
  refine ⟨⟨?_, ?_⟩, ?_⟩
  · rw [quotient]
    exact Nat.le_add_right _ _
  · have inside : r.offset % page.bytes + i < r.aligned page := by
      unfold Region.aligned
      omega
    rw [quotient]
    exact Nat.add_lt_add_left (page.div_lt_pagesOf inside) _
  · unfold Region.filePage
    rw [rest, quotient, Nat.add_sub_cancel_left, Nat.mul_add, Nat.add_assoc, Nat.div_add_mod,
      ← Nat.add_assoc, Nat.div_add_mod]

/-- What the table of mappings and the pages are when exactly `regions` are open. -/
structure MappedState (page : PageSize) (s : MappedStream) (regions : List Region) : Prop where
  seekable : s.isSeekable = true
  sized : s.file.content.length ≤ offMax
  allocated : s.mmaps ≠ some []
  vacant : ∀ info ∈ s.slots, info.used = false → info = .free
  table : (s.slots.filter MmapInfo.used).Perm (regions.map (Region.info page))
  regular : ∀ r ∈ regions, r.Regular page s.file.content.length
  mapped : ∀ r ∈ regions, ∀ p, r.Covers page p → s.pages p = some (r.filePage page p)
  only : ∀ p, s.pages p ≠ none → ∃ r ∈ regions, r.Covers page p
  apart : regions.Pairwise fun r q => ∀ p, r.Covers page p → ¬ q.Covers page p

/-- An open region shows its bytes of the file. -/
theorem MappedState.shows (h : MappedState page s regions) (mem : r ∈ regions) {i : Nat} (lt : i < r.size) :
    s.byteAt page (r.addr + i) = s.file.content[r.offset + i]? := by
  have regular := h.regular r mem
  have ⟨covers, same⟩ := regular.byte lt
  have inside : r.offset + i < s.file.content.length :=
    Nat.lt_of_lt_of_le (Nat.add_lt_add_left lt _) regular.inside
  unfold MappedStream.byteAt
  rw [h.mapped r mem _ covers, Option.map_some, same, List.getD_eq_getElem?_getD,
    List.getElem?_eq_getElem inside, Option.getD_some]

/-- Two open regions are one where their pages meet. -/
theorem MappedState.unique (h : MappedState page s regions) {q : Region} (mem : r ∈ regions)
    (mem' : q ∈ regions) {p : Nat} (covers : r.Covers page p) (covers' : q.Covers page p) :
    r = q := by
  have apart := h.apart
  clear h
  induction regions with
  | nil => cases mem
  | cons u regions ih =>
    obtain ⟨first, rest⟩ := List.pairwise_cons.mp apart
    cases mem with
    | head =>
      cases mem' with
      | head => rfl
      | tail _ mem' => exact absurd covers' (first q mem' p covers)
    | tail _ mem =>
      cases mem' with
      | head => exact absurd covers (first r mem p covers')
      | tail _ mem' => exact ih mem mem' rest

/-- The address of an open region is its own. -/
theorem MappedState.addr_inj (h : MappedState page s regions) {q : Region} (mem : r ∈ regions)
    (mem' : q ∈ regions) (same : r.addr = q.addr) : r = q :=
  h.unique mem mem' (h.regular r mem).covers_addr (same ▸ (h.regular q mem').covers_addr)

/-! ## Opening -/

/-- What `open_mem` leaves of the stream when it fails. -/
structure Refused (s t : MappedStream) : Prop where
  seekable : t.isSeekable = s.isSeekable
  file : t.file = s.file
  pages : t.pages = s.pages
  table : t.slots.filter MmapInfo.used = s.slots.filter MmapInfo.used
  vacant : ∀ info ∈ t.slots, info ∈ s.slots ∨ info = .free
  allocated : s.mmaps ≠ some [] → t.mmaps ≠ some []

theorem MappedState.refused (h : MappedState page s regions) (kept : Refused s t) : MappedState page t regions where
  seekable := kept.seekable.trans h.seekable
  sized := by
    rw [kept.file]
    exact h.sized
  allocated := kept.allocated h.allocated
  vacant info mem unused := by
    cases kept.vacant info mem with
    | inl mem => exact h.vacant info mem unused
    | inr free => exact free
  table := by
    rw [kept.table]
    exact h.table
  regular := by
    rw [kept.file]
    exact h.regular
  mapped := by
    rw [kept.pages]
    exact h.mapped
  only := by
    rw [kept.pages]
    exact h.only
  apart := h.apart

/-- What `open_mem` leaves when it maps a region: its slot and its pages. -/
structure Opened (page : PageSize) (s t : MappedStream) (r : Region) : Prop where
  seekable : t.isSeekable = s.isSeekable
  file : t.file = s.file
  table : (t.slots.filter MmapInfo.used).Perm (r.info page :: s.slots.filter MmapInfo.used)
  vacant : ∀ info ∈ t.slots, info ∈ s.slots ∨ info = .free ∨ info = r.info page
  allocated : t.mmaps ≠ some []
  regular : r.Regular page s.file.content.length
  unmapped : ∀ p, r.Covers page p → s.pages p = none
  pages : t.pages = fun p => if r.Covers page p then some (r.filePage page p) else s.pages p

theorem Region.Regular.used {n : Nat} (h : r.Regular page n) : (r.info page).used = true :=
  bne_iff_ne.mpr (Nat.ne_of_gt h.positive)

theorem MappedState.opened (h : MappedState page s regions) (opened : Opened page s t r) :
    MappedState page t (r :: regions) where
  seekable := opened.seekable.trans h.seekable
  sized := by
    rw [opened.file]
    exact h.sized
  allocated := opened.allocated
  vacant info mem unused := by
    obtain mem | free | own := opened.vacant info mem
    · exact h.vacant info mem unused
    · exact free
    · rw [own, opened.regular.used] at unused
      cases unused
  table := opened.table.trans (h.table.cons _)
  regular q mem := by
    rw [opened.file]
    cases mem with
    | head => exact opened.regular
    | tail _ mem => exact h.regular q mem
  mapped q mem p covers := by
    rw [opened.pages]
    cases mem with
    | head => exact if_pos covers
    | tail _ mem =>
      have mapped := h.mapped q mem p covers
      have other : ¬ r.Covers page p := by
        intro own
        rw [opened.unmapped p own] at mapped
        cases mapped
      exact (if_neg other).trans mapped
  only p mapped := by
    rw [opened.pages] at mapped
    by_cases own : r.Covers page p
    · exact ⟨r, List.mem_cons_self, own⟩
    · dsimp only at mapped
      rw [if_neg own] at mapped
      obtain ⟨q, mem, covers⟩ := h.only p mapped
      exact ⟨q, List.mem_cons_of_mem r mem, covers⟩
  apart := by
    refine List.pairwise_cons.mpr ⟨?_, h.apart⟩
    intro q mem p own covers
    have mapped := h.mapped q mem p covers
    rw [opened.unmapped p own] at mapped
    cases mapped

/-- The bytes that there are of a region. -/
def regionAvail (s : MappedStream) (start size : Nat) : Nat :=
  min size (s.file.content.length - start)

/-- The length that is mapped, from the start of the page. -/
def mapLength (page : PageSize) (s : MappedStream) (start size : Nat) : Nat :=
  regionAvail s start size + start % page.bytes

/-- The table that `open_mem` works on, which it allocates when there is none. -/
theorem slots_allocated (h : s.mmaps ≠ some []) :
    let mmaps := s.mmaps.getD (List.replicate fileStreamInitialMmaps MmapInfo.free)
    mmaps ≠ [] ∧ mmaps.filter MmapInfo.used = s.slots.filter MmapInfo.used ∧
      ∀ info ∈ mmaps, info ∈ s.slots ∨ info = .free := by
  unfold MappedStream.slots
  cases found : s.mmaps with
  | none =>
    refine ⟨List.cons_ne_nil _ _, ?_, ?_⟩
    · apply List.filter_eq_nil_iff.mpr
      intro info mem
      rw [List.eq_of_mem_replicate mem]
      exact Bool.false_ne_true
    · intro info mem
      exact .inr (List.eq_of_mem_replicate mem)
  | some mmaps =>
    refine ⟨?_, rfl, fun info mem => .inl mem⟩
    intro empty
    exact h (found.trans (congrArg some empty))

/-- The address of a region lies in its first page. -/
theorem first_page {addr : Nat} (start : Nat) (aligned : addr % page.bytes = 0) :
    (addr + start % page.bytes) / page.bytes = addr / page.bytes := by
  have whole := Nat.div_add_mod addr page.bytes
  rw [aligned, Nat.add_zero] at whole
  have rest : start % page.bytes / page.bytes = 0 :=
    Nat.div_eq_of_lt (Nat.mod_lt _ page.bytes_pos)
  calc (addr + start % page.bytes) / page.bytes
      = (page.bytes * (addr / page.bytes) + start % page.bytes) / page.bytes := by rw [whole]
    _ = addr / page.bytes := by rw [Nat.mul_add_div page.bytes_pos, rest, Nat.add_zero]

/-- The stream that `open_mem` leaves with a region where the system chose. -/
theorem opened_chosen {start size addr idx : Nat} {mmaps : List MmapInfo} {info : MmapInfo}
    (inside : start ≤ s.file.content.length) (nonempty : mapLength page s start size ≠ 0)
    (may : Choosable page s.pages (mapLength page s start size) addr)
    (here : mmaps[idx]? = some info) (unused : info.used = false)
    (kept : mmaps.filter MmapInfo.used = s.slots.filter MmapInfo.used)
    (within : ∀ info ∈ mmaps, info ∈ s.slots ∨ info = .free) :
    let r : Region := ⟨addr + start % page.bytes, start, regionAvail s start size⟩
    Opened page s
      { s with
        mmaps := some (mmaps.set idx (r.info page))
        pages := fun p =>
          if addr / page.bytes ≤ p ∧
              p < addr / page.bytes + page.pagesOf (mapLength page s start size) then
            some (page.alignDown start / page.bytes + (p - addr / page.bytes))
          else s.pages p } r := by
  intro r
  have first : r.addr / page.bytes = addr / page.bytes := first_page start may.aligned
  have covers : ∀ p, r.Covers page p ↔ addr / page.bytes ≤ p ∧
      p < addr / page.bytes + page.pagesOf (mapLength page s start size) := by
    intro p
    unfold Region.Covers
    rw [first]
    rfl
  have regular : r.Regular page s.file.content.length := by
    refine ⟨?_, Nat.lt_of_lt_of_le may.positive (Nat.le_add_right _ _), Nat.pos_of_ne_zero nonempty, ?_⟩
    · change (addr + start % page.bytes) % page.bytes = start % page.bytes
      rw [Nat.add_mod, may.aligned, Nat.zero_add, Nat.mod_mod, Nat.mod_mod]
    · have := Nat.min_le_right size (s.file.content.length - start)
      change start + min size (s.file.content.length - start) ≤ s.file.content.length
      omega
  refine ⟨rfl, rfl, ?_, ?_, ?_, regular, ?_, ?_⟩
  · rw [← kept]
    exact filter_set_used here unused regular.used
  · intro info mem
    cases List.mem_or_eq_of_mem_set mem with
    | inl mem => exact (within info mem).imp_right .inl
    | inr own => exact .inr (.inr own)
  · intro empty
    cases mmaps with
    | nil => cases here
    | cons _ _ => cases idx <;> cases Option.some.inj empty
  · intro p own
    obtain ⟨lower, upper⟩ := (covers p).mp own
    exact may.unmapped p lower upper
  · funext p
    by_cases own : r.Covers page p
    · rw [if_pos own]
      refine (if_pos ((covers p).mp own)).trans ?_
      unfold Region.filePage
      rw [first, page.alignDown_eq, Nat.mul_div_cancel_left _ page.bytes_pos]
    · rw [if_neg own]
      exact if_neg (fun c => own ((covers p).mpr c))

open MappedStream in
theorem fileOpenMem_cases (h : MappedState page s regions) (chosen : Option Nat) (offset : Int)
    (size : Nat) :
    let start := sizeAdd 0 offset
    (∃ t, fileOpenMem page chosen s offset size = .ret (none, t) ∧ Refused s t ∧
      (s.file.content.length < start ∨ mapLength page s start size = 0 ∨ chosen = none)) ∨
    ∃ addr t, chosen = some addr ∧
      fileOpenMem page chosen s offset size =
        .ret (some (addr + start % page.bytes, regionAvail s start size), t) ∧
      start ≤ s.file.content.length ∧ mapLength page s start size ≠ 0 ∧
      (Choosable page s.pages (mapLength page s start size) addr →
        Opened page s t ⟨addr + start % page.bytes, start, regionAvail s start size⟩) := by
  intro start
  have seekable : assert s.isSeekable = (.ret () : Run Unit) := if_pos h.seekable
  unfold fileOpenMem
  rw [seekable, Outcome.ret_bind]
  dsimp only
  by_cases outside : s.file.content.length < start
  · refine .inl ⟨_, if_pos outside, ?_, .inl outside⟩
    exact ⟨rfl, rfl, rfl, rfl, fun info mem => .inl mem, fun h => h⟩
  · rw [if_neg outside]
    obtain ⟨nonempty, same, own⟩ := slots_allocated h.allocated
    obtain ⟨mmaps, idx, info, reserved, here, unused, kept, from_⟩ :=
      reserveSlot_spec MmapInfo.used MmapInfo.free nonempty rfl
    have within : ∀ info ∈ mmaps, info ∈ s.slots ∨ info = .free := by
      intro info mem
      cases from_ info mem with
      | inl mem => exact own info mem
      | inr free => exact .inr free
    have least : (if size < s.file.content.length - start then size
        else s.file.content.length - start) = regionAvail s start size := by
      unfold regionAvail
      rw [Nat.min_def]
      split <;> split <;> omega
    have filled : mmaps ≠ [] := by
      rintro rfl
      cases here
    have refused : Refused s (MappedStream.setError { s with mmaps := some mmaps } .system) :=
      ⟨rfl, rfl, rfl, kept.trans same, within, fun _ empty => filled (Option.some.inj empty)⟩
    rw [reserved]
    dsimp only
    rw [least, page.sub_alignDown]
    by_cases empty : mapLength page s start size = 0
    · have refuses : mmap page chosen s.pages (regionAvail s start size + start % page.bytes)
          (page.alignDown start) = none := if_pos empty
      rw [refuses]
      exact .inl ⟨_, rfl, refused, .inr (.inl empty)⟩
    · cases chosen with
      | none =>
        have refuses : mmap page none s.pages (regionAvail s start size + start % page.bytes)
            (page.alignDown start) = none := if_neg empty
        rw [refuses]
        exact .inl ⟨_, rfl, refused, .inr (.inr rfl)⟩
      | some addr =>
        have maps : mmap page (some addr) s.pages
            (regionAvail s start size + start % page.bytes) (page.alignDown start) = _ :=
          if_neg empty
        rw [maps]
        refine .inr ⟨addr, _, rfl, rfl, Nat.le_of_not_lt outside, empty, fun may => ?_⟩
        exact opened_chosen (Nat.le_of_not_lt outside) empty may here unused (kept.trans same)
          within

/-! ## Closing -/

/-- What `close_mem` leaves when it releases a region. -/
structure Released (page : PageSize) (s t : MappedStream) (r : Region) : Prop where
  seekable : t.isSeekable = s.isSeekable
  file : t.file = s.file
  table : (s.slots.filter MmapInfo.used).Perm (r.info page :: t.slots.filter MmapInfo.used)
  vacant : ∀ info ∈ t.slots, info ∈ s.slots ∨ info = .free
  allocated : t.mmaps ≠ some []
  pages : t.pages = fun p => if r.Covers page p then none else s.pages p

/-- The region of a slot in use. -/
theorem MappedState.slot_region (h : MappedState page s regions) {info : MmapInfo} (mem : info ∈ s.slots)
    (used : info.used = true) : ∃ r ∈ regions, r.info page = info :=
  List.mem_map.mp (h.table.mem_iff.mp (List.mem_filter.mpr ⟨mem, used⟩))

/-- The slot of an open region. -/
theorem MappedState.region_slot (h : MappedState page s regions) (mem : r ∈ regions) :
    r.info page ∈ s.slots :=
  (List.mem_filter.mp (h.table.mem_iff.mpr (List.mem_map_of_mem mem))).1

/-- The pages of a region are given back from where they begin. -/
theorem closeImpl_region (s : MappedStream) {n : Nat} (regular : r.Regular page n) :
    MappedStream.fileCloseMemImpl page s (r.info page) =
      (0, { s with pages := fun p => if r.Covers page p then none else s.pages p }) := by
  have start : r.addr - r.offset % page.bytes = page.bytes * (r.addr / page.bytes) := by
    have whole := Nat.div_add_mod r.addr page.bytes
    have delta := regular.delta
    omega
  have unmaps : munmap page s.pages (r.addr - r.offset % page.bytes) (r.aligned page) =
      some fun p => if r.Covers page p then none else s.pages p := by
    unfold munmap Region.Covers
    rw [start, Nat.mul_mod_right, Nat.mul_div_cancel_left _ page.bytes_pos]
    apply if_neg
    intro bad
    cases bad with
    | inl bad => exact bad rfl
    | inr empty => exact Nat.ne_of_gt regular.nonempty empty
  have delta := page.sub_alignDown r.offset
  unfold MappedStream.fileCloseMemImpl Region.info
  dsimp only
  rw [delta, unmaps]

theorem closeImpl_free (s : MappedStream) :
    MappedStream.fileCloseMemImpl page s .free = (-1, s.setError .system) := by
  have refuses : munmap page s.pages
      (0 - (0 - page.alignDown 0)) 0 = none := if_pos (.inr rfl)
  unfold MappedStream.fileCloseMemImpl MmapInfo.free
  dsimp only
  rw [refuses]

/-- The slots of a table with one of them cleared. -/
theorem slots_cleared {t : MappedStream} {idx : Nat}
    (mmaps : t.mmaps = s.mmaps.map (·.set idx .free)) : t.slots = s.slots.set idx .free := by
  unfold MappedStream.slots
  rw [mmaps]
  cases s.mmaps with
  | none => rfl
  | some mmaps => rfl

theorem allocated_cleared {t : MappedStream} {idx : Nat} (h : s.mmaps ≠ some [])
    (mmaps : t.mmaps = s.mmaps.map (·.set idx .free)) : t.mmaps ≠ some [] := by
  rw [mmaps]
  cases found : s.mmaps with
  | none => nofun
  | some mmaps =>
    cases mmaps with
    | nil => exact absurd found h
    | cons _ _ => cases idx <;> nofun

theorem vacant_cleared {t : MappedStream} {idx : Nat}
    (mmaps : t.mmaps = s.mmaps.map (·.set idx .free)) :
    ∀ info ∈ t.slots, info ∈ s.slots ∨ info = .free := by
  intro info mem
  rw [slots_cleared mmaps] at mem
  exact List.mem_or_eq_of_mem_set mem

open MappedStream in
theorem MappedState.close_open (h : MappedState page s regions) (mem : r ∈ regions) :
    ∃ t, fileCloseMem page s r.addr = (0, t) ∧ Released page s t r := by
  have regular := h.regular r mem
  unfold fileCloseMem
  cases found : s.slots.findIdx? (fun info => r.addr == info.addr) with
  | none =>
    have other := List.findIdx?_eq_none_iff.mp found _ (h.region_slot mem)
    exact absurd (beq_self_eq_true r.addr) (Bool.eq_false_iff.mp other)
  | some idx =>
    obtain ⟨inside, here, -⟩ := List.findIdx?_eq_some_iff_getElem.mp found
    have same : r.addr = s.slots[idx].addr := beq_iff_eq.mp here
    have used : s.slots[idx].used = true := by
      unfold MmapInfo.used
      rw [← same]
      exact bne_iff_ne.mpr (Nat.ne_of_gt regular.positive)
    obtain ⟨q, mem', own⟩ := h.slot_region (List.getElem_mem inside) used
    have one : r = q := h.addr_inj mem mem' (same.trans (congrArg MmapInfo.addr own).symm)
    subst one
    have at_idx : s.slots[idx]? = some (r.info page) := by
      rw [List.getElem?_eq_getElem inside, own]
    have slot : s.slots.getD idx .free = r.info page := by
      rw [List.getD_eq_getElem?_getD, at_idx]
      rfl
    dsimp only
    rw [slot, closeImpl_region s regular]
    refine ⟨_, rfl, rfl, rfl, ?_, vacant_cleared rfl, allocated_cleared h.allocated rfl, rfl⟩
    apply (filter_set_free (b := MmapInfo.free) at_idx regular.used rfl).trans
    exact .of_eq (congrArg (r.info page :: ·.filter MmapInfo.used) (slots_cleared rfl).symm)

open MappedStream in
theorem MappedState.close_other (h : MappedState page s regions) {addr : Nat}
    (other : ∀ r ∈ regions, r.addr ≠ addr) :
    ∃ t, fileCloseMem page s addr = (-1, t) ∧ Refused s t := by
  unfold fileCloseMem
  cases found : s.slots.findIdx? (fun info => addr == info.addr) with
  | none =>
    exact ⟨_, rfl, rfl, rfl, rfl, rfl, fun info mem => .inl mem, fun h => h⟩
  | some idx =>
    obtain ⟨inside, here, -⟩ := List.findIdx?_eq_some_iff_getElem.mp found
    have same : addr = s.slots[idx].addr := beq_iff_eq.mp here
    have free : s.slots[idx] = .free := by
      apply h.vacant _ (List.getElem_mem inside)
      by_contra used
      obtain ⟨r, mem, own⟩ := h.slot_region (List.getElem_mem inside) (by simpa using used)
      exact other r mem ((congrArg MmapInfo.addr own).trans same.symm)
    have slot : s.slots.getD idx .free = .free := by
      rw [List.getD_eq_getElem?_getD, List.getElem?_eq_getElem inside, free]
      rfl
    have unchanged : s.slots.set idx .free = s.slots := by
      rw [← free]
      exact List.set_getElem_self inside
    dsimp only
    rw [slot, closeImpl_free]
    refine ⟨_, rfl, rfl, rfl, rfl, ?_, vacant_cleared rfl, fun h => allocated_cleared h rfl⟩
    exact congrArg (List.filter MmapInfo.used) ((slots_cleared rfl).trans unchanged)

theorem MappedState.closed (h : MappedState page s regions) (mem : r ∈ regions) (closed : Released page s t r) :
    MappedState page t (regions.eraseP fun q => q.addr == r.addr) := by
  obtain ⟨q, before, after, -, same, parts, left⟩ :=
    List.exists_of_eraseP (p := fun q : Region => q.addr == r.addr) mem (beq_self_eq_true r.addr)
  have order : regions.Perm (q :: (before ++ after)) := by
    rw [parts]
    exact List.perm_middle
  have one : q = r := h.addr_inj (order.mem_iff.mpr List.mem_cons_self) mem (beq_iff_eq.mp same)
  subst one
  have kept : ∀ u ∈ before ++ after, u ∈ regions := fun u mem =>
    order.mem_iff.mpr (List.mem_cons_of_mem _ mem)
  have symm : ∀ {u v : Region}, (∀ p, u.Covers page p → ¬ v.Covers page p) →
      ∀ p, v.Covers page p → ¬ u.Covers page p := fun apart p own other => apart p other own
  obtain ⟨first, rest⟩ := List.pairwise_cons.mp (order.pairwise h.apart symm)
  rw [left]
  exact
    { seekable := closed.seekable.trans h.seekable
      sized := by
        rw [closed.file]
        exact h.sized
      allocated := closed.allocated
      vacant := by
        intro info mem unused
        cases closed.vacant info mem with
        | inl mem => exact h.vacant info mem unused
        | inr free => exact free
      table := ((closed.table.symm.trans h.table).trans (order.map _)).cons_inv
      regular := by
        rw [closed.file]
        exact fun u mem => h.regular u (kept u mem)
      mapped := by
        intro u mem p covers
        rw [closed.pages]
        exact (if_neg fun own => first u mem p own covers).trans (h.mapped u (kept u mem) p covers)
      only := by
        intro p mapped
        rw [closed.pages] at mapped
        dsimp only at mapped
        split at mapped
        · exact absurd rfl mapped
        · rename_i other
          obtain ⟨u, mem, covers⟩ := h.only p mapped
          cases order.mem_iff.mp mem with
          | head => exact absurd covers other
          | tail _ mem => exact ⟨u, mem, covers⟩
      apart := rest }

/-! ## Runs -/

/-- A stream of a file that nothing has been mapped of. -/
structure Unmapped (s : MappedStream) : Prop where
  seekable : s.isSeekable = true
  sized : s.file.content.length ≤ offMax
  mmaps : s.mmaps = none
  pages : s.pages = fun _ => none

open MappedStream in
/-- The states of a stream after any calls of `open_mem` and `close_mem`, with
the regions that were opened and not closed. -/
inductive MappedRun (page : PageSize) : MappedStream → List Region → Prop
  | start {s : MappedStream} : Unmapped s → MappedRun page s []
  | opened {s t : MappedStream} {regions : List Region} {chosen : Option Nat} {offset : Int}
      {size addr avail : Nat} : MappedRun page s regions →
      (∀ a, chosen = some a →
        Choosable page s.pages (mapLength page s (sizeAdd 0 offset) size) a) →
      fileOpenMem page chosen s offset size = .ret (some (addr, avail), t) →
      MappedRun page t (⟨addr, sizeAdd 0 offset, avail⟩ :: regions)
  | refused {s t : MappedStream} {regions : List Region} {chosen : Option Nat} {offset : Int}
      {size : Nat} : MappedRun page s regions →
      fileOpenMem page chosen s offset size = .ret (none, t) → MappedRun page t regions
  | closed {s t : MappedStream} {regions : List Region} {addr : Nat} {ret : Int} :
      MappedRun page s regions → fileCloseMem page s addr = (ret, t) →
      MappedRun page t (regions.eraseP fun r => r.addr == addr)

theorem Unmapped.holds (h : Unmapped s) : MappedState page s [] where
  seekable := h.seekable
  sized := h.sized
  allocated := by
    rw [h.mmaps]
    nofun
  vacant := by
    unfold MappedStream.slots
    rw [h.mmaps]
    exact fun info mem => absurd mem List.not_mem_nil
  table := by
    unfold MappedStream.slots
    rw [h.mmaps]
    exact List.Perm.refl []
  regular r mem := absurd mem List.not_mem_nil
  mapped r mem := absurd mem List.not_mem_nil
  only p mapped := by
    rw [h.pages] at mapped
    exact absurd rfl mapped
  apart := List.Pairwise.nil

theorem MappedRun.holds (run : MappedRun page s regions) : MappedState page s regions := by
  induction run with
  | start h => exact h.holds
  | opened _ may opens ih =>
    rename_i chosen offset size _ _ _
    obtain ⟨t', opens', -⟩ | ⟨a, t', chose, opens', -, -, opened⟩ :=
      fileOpenMem_cases ih chosen offset size
    · cases opens.symm.trans opens'
    · cases opens.symm.trans opens'
      exact ih.opened (opened (may a chose))
  | refused _ opens ih =>
    rename_i chosen offset size _
    obtain ⟨t', opens', kept, -⟩ | ⟨a, t', -, opens', -⟩ :=
      fileOpenMem_cases ih chosen offset size
    · cases opens.symm.trans opens'
      exact ih.refused kept
    · cases opens.symm.trans opens'
  | closed _ closes ih =>
    rename_i s t regions addr ret _
    by_cases known : ∃ r ∈ regions, r.addr = addr
    · obtain ⟨r, mem, rfl⟩ := known
      obtain ⟨t', closes', closed⟩ := ih.close_open mem
      cases closes.symm.trans closes'
      exact ih.closed mem closed
    · have other : ∀ r ∈ regions, r.addr ≠ addr := fun r mem same => known ⟨r, mem, same⟩
      obtain ⟨t', closes', kept⟩ := ih.close_other other
      cases closes.symm.trans closes'
      have left : regions.eraseP (fun r => r.addr == addr) = regions := by
        apply List.eraseP_of_forall_not
        intro r mem same
        exact other r mem (beq_iff_eq.mp same)
      rw [left]
      exact ih.refused kept

/-! ## What the calls do -/

open MappedStream in
/-- Opening a region gives an address that shows its bytes of the file. -/
def OpensRight (page : PageSize) (chosen : Nat) (s : MappedStream) (start size : Nat) : Prop :=
  ∃ addr t, fileOpenMem page (some chosen) s start size =
      .ret (some (addr, regionAvail s start size), t) ∧
    ∀ i, i < regionAvail s start size → t.byteAt page (addr + i) = s.file.content[start + i]?

open MappedStream in
/-- An empty region of a file cannot be opened where a page begins. -/
theorem MappedState.opensRight_iff (h : MappedState page s regions) {start size chosen : Nat}
    (inside : start ≤ s.file.content.length)
    (may : Choosable page s.pages (mapLength page s start size) chosen) :
    OpensRight page chosen s start size ↔
      ¬ (regionAvail s start size = 0 ∧ start % page.bytes = 0) := by
  have cast : sizeAdd 0 (start : Int) = start := by
    have := h.sized
    unfold sizeAdd
    unfold offMax at this
    omega
  have empty : mapLength page s start size = 0 ↔
      regionAvail s start size = 0 ∧ start % page.bytes = 0 := Nat.add_eq_zero_iff
  rw [← empty]
  have cases := fileOpenMem_cases h (some chosen) start size
  dsimp only at cases
  rw [cast] at cases
  obtain ⟨t, opens, -, why⟩ | ⟨addr, t, chose, opens, -, nonempty, opened⟩ := cases
  · constructor
    · rintro ⟨addr, u, opens', -⟩
      cases opens.symm.trans opens'
    · intro nonempty
      obtain outside | empty | none := why
      · exact absurd inside (Nat.not_le_of_lt outside)
      · exact absurd empty nonempty
      · cases none
  · refine ⟨fun _ => nonempty, fun _ => ?_⟩
    cases Option.some.inj chose
    have opened := opened may
    refine ⟨_, t, opens, fun i lt => ?_⟩
    rw [← opened.file]
    exact (h.opened opened).shows List.mem_cons_self lt

open MappedStream in
/-- In every state reached, opening gives the bytes of the region but for an empty
one where a page begins, the table holds what is open, each open region shows its
bytes, and closing releases the region of the address and nothing else. -/
theorem mapped_regions (page : PageSize) {s : MappedStream} {regions : List Region}
    (run : MappedRun page s regions) :
    (∀ start size chosen, start ≤ s.file.content.length →
      Choosable page s.pages (mapLength page s start size) chosen →
      (OpensRight page chosen s start size ↔
        ¬ (regionAvail s start size = 0 ∧ start % page.bytes = 0))) ∧
    (s.slots.filter MmapInfo.used).Perm (regions.map (Region.info page)) ∧
    (∀ r ∈ regions, ∀ i, i < r.size →
      s.byteAt page (r.addr + i) = s.file.content[r.offset + i]?) ∧
    (∀ r ∈ regions, ∃ t, fileCloseMem page s r.addr = (0, t) ∧ Released page s t r) ∧
    ∀ addr, (∀ r ∈ regions, r.addr ≠ addr) →
      ∃ t, fileCloseMem page s addr = (-1, t) ∧ Refused s t := by
  have h := run.holds
  refine ⟨?_, h.table, ?_, ?_, ?_⟩
  · intro start size chosen inside may
    exact h.opensRight_iff inside may
  · intro r mem i lt
    exact h.shows mem lt
  · intro r mem
    exact h.close_open mem
  · intro addr other
    exact h.close_other other

def page4k : PageSize := ⟨4096, 12, rfl⟩

/-- A stream of a file that is fresh. -/
def mappedFile (content : Bytes) : MappedStream :=
  { streamFromFp content [] true false with mmaps := none, pages := fun _ => none }

theorem mapped_regions_byte : ∃ t, MappedRun page4k t [⟨4096, 0, 1⟩] ∧
    t.file.content = [7] ∧ t.byteAt page4k 4096 = some 7 := by
  have fresh : MappedRun page4k (mappedFile [7]) [] := .start ⟨rfl, by decide, rfl, rfl⟩
  have may : ∀ a, some 4096 = some a →
      Choosable page4k (mappedFile [7]).pages (mapLength page4k (mappedFile [7]) 0 1) a := by
    rintro a ⟨⟩
    exact ⟨rfl, by decide, fun p _ _ => rfl⟩
  have run := fresh.opened may (rfl : MappedStream.fileOpenMem page4k (some 4096) (mappedFile [7]) 0 1 = _)
  exact ⟨_, run, rfl, (mapped_regions page4k run).2.2.1 _ List.mem_cons_self 0 Nat.one_pos⟩

theorem empty_region_refused :
    MappedRun page4k (mappedFile []) [] ∧ 0 ≤ (mappedFile []).file.content.length ∧
      Choosable page4k (mappedFile []).pages (mapLength page4k (mappedFile []) 0 0) 4096 ∧
      ¬ OpensRight page4k 4096 (mappedFile []) 0 0 := by
  refine ⟨.start ⟨rfl, by decide, rfl, rfl⟩, Nat.zero_le _, ⟨rfl, by decide, fun p _ _ => rfl⟩, ?_⟩
  rintro ⟨addr, t, opens, -⟩
  have refuses : ∃ u, MappedStream.fileOpenMem page4k (some 4096) (mappedFile []) 0 0 =
      .ret (none, u) := ⟨_, rfl⟩
  obtain ⟨u, refuses⟩ := refuses
  cases refuses.symm.trans opens

end LibAsdf
