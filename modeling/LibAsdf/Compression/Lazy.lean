import LibAsdf.Compression.Lz4
import LibAsdf.Compression.Codecs

/-!
# Lazy decompression

The destination of a compressed block is filled page by page, as threads touch
it: a fault handler decompresses chunks in order until the page is there.

* `LazyMap`: the destination and the sizes;
* `uffdioCopy`, `handleRound`: one round of the handler;
* `LazyStep`: threads that fault, at any time, and the handler;
* `Sequential`: what a decompressor has to do, one chunk after another;
* `LazyInv`, `lazyStep_inv`: what holds throughout;
* `lazy_equals_eager`: what threads see.
-/

namespace LibAsdf

/-! ## The destination -/

/-- `x & ~(page_size - 1)`. -/
def alignDown (pageSize x : Nat) : Nat := x &&& (2 ^ 64 - pageSize)

/-- `(x + page_size - 1) & ~(page_size - 1)`. -/
def alignUp (pageSize x : Nat) : Nat := alignDown pageSize ((x + pageSize - 1) % 2 ^ 64)

theorem alignDown_two_pow {k x : Nat} (bits : k ≤ 64) (lt : x < 2 ^ 64) :
    alignDown (2 ^ k) x = x / 2 ^ k * 2 ^ k := by
  have mask : 2 ^ 64 - 2 ^ k = (2 ^ (64 - k) - 1) <<< k := by
    rw [Nat.shiftLeft_eq, Nat.sub_mul, Nat.one_mul, ← Nat.pow_add, Nat.sub_add_cancel bits]
  rw [alignDown, mask, ← Nat.shiftLeft_eq, ← Nat.shiftRight_eq_div_pow]
  apply Nat.eq_of_testBit_eq
  intro i
  rw [Nat.testBit_and, Nat.testBit_shiftLeft, Nat.testBit_shiftLeft, Nat.testBit_shiftRight,
    Nat.testBit_two_pow_sub_one]
  by_cases low : k ≤ i
  · by_cases high : i < 64
    · have : i - k < 64 - k := by omega
      simp [low, this]
    · have : x.testBit i = false :=
        Nat.testBit_lt_two_pow (Nat.lt_of_lt_of_le lt (Nat.pow_le_pow_right (by decide) (by omega)))
      simp [low, this]
  · simp [low]

/-- A destination that is mapped at an address, with the page size, the size of
the chunks and its own size, in the ranges that the allocations have checked. -/
structure LazyMap where
  pageBits : Nat
  chunkPages : Nat
  destSize : Nat
  dest : Nat
  pageBits_le : pageBits ≤ 62
  chunkPages_pos : 0 < chunkPages
  chunkSize_le : chunkPages * 2 ^ pageBits ≤ offMax
  destSize_pos : 0 < destSize
  destSize_le : destSize ≤ offMax
  aligned : 2 ^ pageBits ∣ dest
  inside : dest + (destSize + 2 ^ pageBits) ≤ 2 ^ 64

namespace LazyMap

variable (m : LazyMap)

def pageSize : Nat := 2 ^ m.pageBits

/-- `work_buf_size`. -/
def chunkSize : Nat := m.chunkPages * m.pageSize

/-- The pages that the destination takes. -/
def pageCount : Nat := (m.destSize + m.pageSize - 1) / m.pageSize

theorem pageSize_pos : 0 < m.pageSize := Nat.two_pow_pos _

end LazyMap

/-! ## The handler -/

/-- What the handler and the kernel keep: the decompressor, the pages that are
filled, the faults that have not been read, the fault that is being handled, the
addresses that threads wait at, and whether the handler is running. -/
structure LazyState (δ : Type) where
  comp : δ
  pages : Nat → Option Bytes
  queue : List Nat
  current : Option Nat
  waiting : List Nat
  running : Bool

/-- `UFFDIO_COPY` to an offset in the destination: refused where the range is not
made of pages, or not within the destination, or where a page is there already. -/
def uffdioCopy (m : LazyMap) (pages : Nat → Option Bytes) (offset : Nat) (src : Bytes) :
    Option (Nat → Option Bytes) :=
  let first := offset / m.pageSize
  let count := src.length / m.pageSize
  if offset % m.pageSize ≠ 0 ∨ src.length % m.pageSize ≠ 0 ∨ src.length = 0 then none
  else if offset + src.length > alignUp m.pageSize m.destSize then none
  else if (List.range count).any fun i => (pages (first + i)).isSome then none
  else some fun i =>
    if first ≤ i ∧ i < first + count then some ((src.drop ((i - first) * m.pageSize)).take m.pageSize)
    else pages i

namespace LazyState

variable {δ : Type}

/-- Wake the threads that wait in a range. -/
def wake (s : LazyState δ) (start len : Nat) : LazyState δ :=
  { s with waiting := s.waiting.filter fun a => ¬ (start ≤ a ∧ a < start + len) }

/-- The handler stops; `UFFDIO_UNREGISTER` wakes all threads. -/
def stop (s : LazyState δ) : LazyState δ :=
  { s with current := none, waiting := [], running := false }

end LazyState

section Handler

variable {δ : Type} (m : LazyMap) (decomp : δ → Bytes → Nat → Option (DecompResult δ))

/-- One round of the loop of `handle_pagefault`, for a fault at `address`. -/
def handleRound (s : LazyState δ) (address : Nat) : LazyState δ :=
  let faultAddr := alignDown m.pageSize address
  let offset := alignDown m.pageSize (sizeSub faultAddr m.dest)
  match decomp s.comp (zeros m.chunkSize) offset with
  | none => s.stop
  | some ⟨none, _, comp⟩ => { s.wake faultAddr m.pageSize with comp := comp, current := none }
  | some ⟨some gotOffset, workBuf, comp⟩ =>
    let len := if gotOffset + m.chunkSize > m.destSize then m.destSize - gotOffset else m.chunkSize
    let len := alignUp m.pageSize len
    match uffdioCopy m s.pages gotOffset (workBuf.take len) with
    | none => s.stop
    | some pages =>
      if offset ≥ gotOffset ∧ offset - gotOffset < len then
        { s.wake (m.dest + gotOffset) len with comp := comp, pages := pages, current := none }
      else { s with comp := comp, pages := pages }

/-- The page of an address. -/
def LazyMap.pageOf (address : Nat) : Nat := (address - m.dest) / m.pageSize

def LazyMap.Holds (address : Nat) : Prop :=
  m.dest ≤ address ∧ m.pageOf address < m.pageCount

/-- How many of the addresses are on a page. -/
def LazyMap.countOn (page : Nat) (addresses : List Nat) : Nat :=
  addresses.countP fun a => m.pageOf a = page

variable (status : δ → CompressorStatus)

/-- The steps of the handler. -/
inductive HandlerStep : LazyState δ → LazyState δ → Prop
  /-- It reads a fault, in whatever order. -/
  | read (s : LazyState δ) (address : Nat) : s.running = true → s.current = none →
      status s.comp ≠ .done → address ∈ s.queue →
      HandlerStep s { s with queue := s.queue.erase address, current := some address }
  | round (s : LazyState δ) (address : Nat) : s.running = true → s.current = some address →
      HandlerStep s (handleRound m decomp s address)
  /-- `decompression complete`. -/
  | finish (s : LazyState δ) : s.running = true → s.current = none → status s.comp = .done →
      HandlerStep s s.stop

/-- The steps that are not the handler's. -/
inductive ThreadStep : LazyState δ → LazyState δ → Prop
  /-- A thread faults, also where the page has been filled meanwhile. -/
  | fault (s : LazyState δ) (address : Nat) : s.running = true → m.Holds address →
      ThreadStep s { s with queue := address :: s.queue, waiting := address :: s.waiting }
  /-- The kernel drops the fault of a thread that was woken. -/
  | drop (s : LazyState δ) (address : Nat) : address ∈ s.queue →
      m.countOn (m.pageOf address) s.waiting <
        m.countOn (m.pageOf address) (s.current.toList ++ s.queue) →
      ThreadStep s { s with queue := s.queue.erase address }

/-- Faults come between any two steps of the handler. -/
inductive LazyStep (s s' : LazyState δ) : Prop
  | handler : HandlerStep m decomp status s s' → LazyStep s s'
  | thread : ThreadStep m s s' → LazyStep s s'

/-- The handling of a fault: how many rounds it has taken, with faults between
them. -/
inductive Handling (address : Nat) (s : LazyState δ) : Nat → LazyState δ → Prop
  | start : s.current = some address → Handling address s 0 s
  | thread {r : Nat} {t u : LazyState δ} : Handling address s r t → ThreadStep m t u →
      Handling address s r u
  | round {r : Nat} {t : LazyState δ} : Handling address s r t → t.running = true →
      (handleRound m decomp t address).current = some address →
      Handling address s (r + 1) (handleRound m decomp t address)

/-- The states that threads and the handler reach. -/
inductive LazyRun (start : δ) : LazyState δ → Prop
  | start : LazyRun start ⟨start, fun _ => none, [], none, [], true⟩
  | step {s s' : LazyState δ} : LazyRun start s → LazyStep m decomp status s s' → LazyRun start s'

end Handler

/-! ## Decompressors -/

/-- A decompressor that gives `plain` from the front, with buffers of the sizes
it can do: `At s p` where it has produced `p` bytes. -/
structure Sequential {δ : Type} (decomp : δ → Bytes → Nat → Option (DecompResult δ))
    (status : δ → CompressorStatus) (plain : Bytes) (destSize : Nat) (sizes : Nat → Prop)
    (At : δ → Nat → Prop) : Prop where
  enough : destSize ≤ plain.length
  /-- The next chunk; what is in the buffer past the end of the destination is
  not said. -/
  produce : ∀ s p buf hint, At s p → p ≤ hint → p < destSize → buf ≠ [] → sizes buf.length →
    ∃ buf' s', decomp s buf hint = some ⟨some p, buf', s'⟩ ∧ At s' (p + buf.length) ∧
      buf'.length = buf.length ∧
      ∀ j, j < buf.length → p + j < destSize → buf'[j]? = plain[p + j]?
  refuse : ∀ s p buf hint, At s p → hint < p →
    ∃ buf' s', decomp s buf hint = some ⟨none, buf', s'⟩ ∧ At s' p
  done : ∀ s p, At s p → status s = .done → destSize ≤ p

/-! ## Pages and addresses -/

namespace LazyMap

variable {m : LazyMap}

theorem pageSize_le (m : LazyMap) : m.pageSize ≤ 2 ^ 62 :=
  Nat.pow_le_pow_right (by decide) m.pageBits_le

theorem alignDown_eq {x : Nat} (lt : x < 2 ^ 64) :
    alignDown m.pageSize x = x / m.pageSize * m.pageSize := by
  have := m.pageBits_le
  exact alignDown_two_pow (by omega) lt

theorem alignUp_eq {x : Nat} (le : x ≤ offMax) :
    alignUp m.pageSize x = (x + m.pageSize - 1) / m.pageSize * m.pageSize := by
  have page := m.pageSize_le
  have max : offMax = 2 ^ 63 - 1 := rfl
  have lt : x + m.pageSize - 1 < 2 ^ 64 := by omega
  rw [alignUp, Nat.mod_eq_of_lt lt, alignDown_eq lt]

theorem alignUp_mul {n : Nat} (le : n * m.pageSize ≤ offMax) :
    alignUp m.pageSize (n * m.pageSize) = n * m.pageSize := by
  have pos := m.pageSize_pos
  rw [alignUp_eq le, Nat.add_sub_assoc pos, Nat.mul_comm n, Nat.mul_add_div pos,
    Nat.div_eq_of_lt (by omega), Nat.add_zero, Nat.mul_comm]

theorem lt_pageCount_iff {i : Nat} : i < m.pageCount ↔ i * m.pageSize < m.destSize := by
  have pos := m.pageSize_pos
  rw [pageCount, Nat.lt_iff_add_one_le, Nat.le_div_iff_mul_le pos, Nat.add_mul, Nat.one_mul]
  omega

theorem destSize_le_pages (m : LazyMap) : m.destSize ≤ m.pageCount * m.pageSize := by
  apply Nat.le_of_not_lt
  intro lt
  exact Nat.lt_irrefl _ (lt_pageCount_iff.mpr lt)

/-- The last page begins in the destination. -/
theorem pages_lt (m : LazyMap) : m.pageCount * m.pageSize < m.destSize + m.pageSize := by
  have size := m.destSize_pos
  have some : 0 < m.pageCount := by
    rw [lt_pageCount_iff, Nat.zero_mul]
    exact size
  have last : (m.pageCount - 1) * m.pageSize < m.destSize := lt_pageCount_iff.mp (by omega)
  rw [Nat.sub_mul, Nat.one_mul] at last
  omega

/-- Where a fault is in the destination. -/
theorem fault_address {address : Nat} (h : m.Holds address) :
    alignDown m.pageSize address = m.dest + m.pageOf address * m.pageSize ∧
      alignDown m.pageSize (sizeSub (m.dest + m.pageOf address * m.pageSize) m.dest) =
        m.pageOf address * m.pageSize := by
  obtain ⟨above, page⟩ := h
  have pos := m.pageSize_pos
  have inside := m.inside
  have pages := m.pages_lt
  have size : m.pageSize = 2 ^ m.pageBits := rfl
  have mod := Nat.div_add_mod (address - m.dest) m.pageSize
  have rest := Nat.mod_lt (address - m.dest) pos
  have start : m.pageOf address * m.pageSize + m.pageSize ≤ m.pageCount * m.pageSize := by
    rw [← Nat.succ_mul]
    exact Nat.mul_le_mul_right _ page
  have offset : m.pageSize * ((address - m.dest) / m.pageSize) =
      m.pageOf address * m.pageSize := Nat.mul_comm _ _
  have lt : address < 2 ^ 64 := by omega
  obtain ⟨d, dest⟩ := m.aligned
  have down : alignDown m.pageSize address = m.dest + m.pageOf address * m.pageSize := by
    have split : address = m.pageSize * d + (address - m.dest) := by
      rw [size, ← dest]
      omega
    rw [alignDown_eq lt]
    conv_lhs => rw [split]
    rw [Nat.mul_add_div pos, Nat.add_mul, Nat.mul_comm d, size, ← dest]
    rfl
  refine ⟨down, ?_⟩
  rw [sizeSub_of_le (Nat.le_add_right _ _), Nat.add_sub_cancel_left, alignDown_eq (by omega),
    Nat.mul_div_cancel _ pos]

/-- An address in a range of pages. -/
theorem in_range_iff {address : Nat} (h : m.Holds address) (first count : Nat) :
    (m.dest + first * m.pageSize ≤ address ∧
      address < m.dest + first * m.pageSize + count * m.pageSize) ↔
      first ≤ m.pageOf address ∧ m.pageOf address < first + count := by
  obtain ⟨above, -⟩ := h
  have pos := m.pageSize_pos
  rw [pageOf, Nat.le_div_iff_mul_le pos, Nat.div_lt_iff_lt_mul pos, Nat.add_mul]
  omega

/-- Waking a range of pages wakes those who wait there, and no one else. -/
theorem countOn_wake {addresses : List Nat} (h : ∀ a ∈ addresses, m.Holds a)
    (first count page : Nat) :
    m.countOn page (addresses.filter fun a => ¬ (m.dest + first * m.pageSize ≤ a ∧
      a < m.dest + first * m.pageSize + count * m.pageSize)) =
      if first ≤ page ∧ page < first + count then 0 else m.countOn page addresses := by
  rw [countOn, List.countP_filter]
  by_cases inside : first ≤ page ∧ page < first + count
  · rw [if_pos inside, List.countP_eq_zero]
    intro a mem
    simp only [in_range_iff (h a mem) first count, Bool.and_eq_true, decide_eq_true_eq]
    rintro ⟨rfl, outside⟩
    exact outside inside
  · rw [if_neg inside]
    apply List.countP_congr
    intro a mem
    simp only [in_range_iff (h a mem) first count, Bool.and_eq_true, decide_eq_true_eq]
    constructor
    · exact And.left
    · rintro rfl
      exact ⟨rfl, inside⟩

end LazyMap

/-! ## A round -/

section Round

variable {δ : Type} {m : LazyMap} {decomp : δ → Bytes → Nat → Option (DecompResult δ)}
  {status : δ → CompressorStatus} {plain : Bytes} {sizes : Nat → Prop} {At : δ → Nat → Prop}

/-- A page has what the data has there, as far as the destination goes. -/
structure LazyMap.Shows (m : LazyMap) (plain : Bytes) (i : Nat) (page : Bytes) : Prop where
  length : page.length = m.pageSize
  same : ∀ j, j < m.pageSize → i * m.pageSize + j < m.destSize →
    page[j]? = plain[i * m.pageSize + j]?

/-- The pages after a copy. -/
def LazyMap.copied (m : LazyMap) (pages : Nat → Option Bytes) (first count : Nat) (src : Bytes)
    (i : Nat) : Option Bytes :=
  if first ≤ i ∧ i < first + count then some ((src.drop ((i - first) * m.pageSize)).take m.pageSize)
  else pages i

theorem uffdioCopy_pages {pages : Nat → Option Bytes} {first count : Nat} {src : Bytes}
    (size : src.length = count * m.pageSize) (held : 0 < count) (inside : first + count ≤ m.pageCount)
    (missing : ∀ i, first ≤ i → pages i = none) :
    uffdioCopy m pages (first * m.pageSize) src = some (m.copied pages first count src) := by
  have pos := m.pageSize_pos
  have top : alignUp m.pageSize m.destSize = m.pageCount * m.pageSize :=
    LazyMap.alignUp_eq m.destSize_le
  have within : ¬ first * m.pageSize + count * m.pageSize > m.pageCount * m.pageSize := by
    rw [← Nat.add_mul]
    exact Nat.not_lt_of_le (Nat.mul_le_mul_right _ inside)
  have held : count * m.pageSize ≠ 0 := Nat.ne_of_gt (Nat.mul_pos held pos)
  have free : ((List.range count).any fun i => (pages (first + i)).isSome) = false := by
    rw [List.any_eq_false]
    intro i _
    rw [missing _ (Nat.le_add_right _ _)]
    exact Bool.false_ne_true
  simp only [uffdioCopy, size, Nat.mul_div_cancel _ pos, Nat.mul_mod_left, ne_eq, held,
    not_true_eq_false, or_self, if_false, top, within, free, Bool.false_eq_true]
  rfl

theorem handleRound_refused (sequential : Sequential decomp status plain m.destSize sizes At)
    {s : LazyState δ} {q address : Nat} (at_q : At s.comp (q * m.pageSize))
    (holds : m.Holds address) (produced : m.pageOf address < q) :
    ∃ comp, At comp (q * m.pageSize) ∧ handleRound m decomp s address =
      { s.wake (m.dest + m.pageOf address * m.pageSize) m.pageSize with
        comp := comp
        current := none } := by
  obtain ⟨start, offset⟩ := LazyMap.fault_address holds
  obtain ⟨buf, comp, refused, at'⟩ := sequential.refuse s.comp _ (zeros m.chunkSize)
    (m.pageOf address * m.pageSize) at_q
    (Nat.mul_lt_mul_of_pos_right produced m.pageSize_pos)
  refine ⟨comp, at', ?_⟩
  simp only [handleRound, start, offset, refused]

/-- The length that is copied, in pages. -/
theorem copy_length {q : Nat} (before : q < m.pageCount) :
    alignUp m.pageSize (if q * m.pageSize + m.chunkSize > m.destSize then
      m.destSize - q * m.pageSize else m.chunkSize) =
        min m.chunkPages (m.pageCount - q) * m.pageSize := by
  have pos := m.pageSize_pos
  have start := LazyMap.lt_pageCount_iff.mp before
  have size := m.destSize_le
  have end_iff : q + m.chunkPages < m.pageCount ↔ (q + m.chunkPages) * m.pageSize < m.destSize :=
    LazyMap.lt_pageCount_iff
  rw [Nat.add_mul] at end_iff
  have chunk : m.chunkSize = m.chunkPages * m.pageSize := rfl
  by_cases last : q * m.pageSize + m.chunkSize > m.destSize
  · have few : m.pageCount - q ≤ m.chunkPages := by omega
    rw [if_pos last, LazyMap.alignUp_eq (by omega), Nat.min_eq_right few]
    have shift : m.destSize + m.pageSize - 1 =
        m.destSize - q * m.pageSize + m.pageSize - 1 + q * m.pageSize := by omega
    rw [LazyMap.pageCount, shift, Nat.add_mul_div_right _ _ pos, Nat.add_sub_cancel]
  · have many : m.chunkPages ≤ m.pageCount - q := by
      apply Nat.le_of_not_lt
      intro less
      have := m.destSize_le_pages
      have : m.pageCount * m.pageSize ≤ (q + m.chunkPages - 1) * m.pageSize :=
        Nat.mul_le_mul_right _ (by omega)
      rw [Nat.sub_mul, Nat.add_mul] at this
      omega
    rw [if_neg last, Nat.min_eq_left many]
    exact LazyMap.alignUp_mul m.chunkSize_le

theorem copied_shows {pages : Nat → Option Bytes} {q i : Nat} {buf : Bytes}
    (length : buf.length = m.chunkSize)
    (same : ∀ j, j < m.chunkSize → q * m.pageSize + j < m.destSize →
      buf[j]? = plain[q * m.pageSize + j]?)
    (here : q ≤ i ∧ i < q + min m.chunkPages (m.pageCount - q)) :
    ∃ page, m.copied pages q (min m.chunkPages (m.pageCount - q))
        (buf.take (min m.chunkPages (m.pageCount - q) * m.pageSize)) i = some page ∧
      m.Shows plain i page := by
  have whole : (i - q + 1) * m.pageSize ≤ min m.chunkPages (m.pageCount - q) * m.pageSize :=
    Nat.mul_le_mul_right _ (by omega)
  have inChunk : min m.chunkPages (m.pageCount - q) * m.pageSize ≤ m.chunkSize :=
    Nat.mul_le_mul_right _ (Nat.min_le_left _ _)
  have place : i * m.pageSize = q * m.pageSize + (i - q) * m.pageSize := by
    rw [← Nat.add_mul, Nat.add_sub_cancel' here.1]
  rw [Nat.add_mul, Nat.one_mul] at whole
  refine ⟨_, if_pos here, ⟨?_, fun j lt inside => ?_⟩⟩
  · rw [List.length_take, List.length_drop, List.length_take, length]
    omega
  · rw [place, Nat.add_assoc] at inside ⊢
    rw [List.getElem?_take_of_lt lt, List.getElem?_drop, List.getElem?_take_of_lt (by omega)]
    exact same _ (by omega) inside

/-- A chunk that is produced is copied whole. -/
theorem handleRound_produced (sequential : Sequential decomp status plain m.destSize sizes At)
    (size : sizes m.chunkSize) {s : LazyState δ} {q address : Nat}
    (at_q : At s.comp (q * m.pageSize)) (missing : ∀ i, q ≤ i → s.pages i = none)
    (holds : m.Holds address) (ahead : q ≤ m.pageOf address) :
    ∃ (comp : δ) (buf : Bytes), At comp ((q + m.chunkPages) * m.pageSize) ∧ buf.length = m.chunkSize ∧
      (∀ j, j < m.chunkSize → q * m.pageSize + j < m.destSize →
        buf[j]? = plain[q * m.pageSize + j]?) ∧
      let count := min m.chunkPages (m.pageCount - q)
      let pages := m.copied s.pages q count (buf.take (count * m.pageSize))
      handleRound m decomp s address = if m.pageOf address < q + count then
        { s.wake (m.dest + q * m.pageSize) (count * m.pageSize) with
          comp := comp
          pages := pages
          current := none }
      else { s with comp := comp, pages := pages } := by
  obtain ⟨start, offset⟩ := LazyMap.fault_address holds
  have pos := m.pageSize_pos
  have before : q < m.pageCount := Nat.lt_of_le_of_lt ahead holds.2
  have chunk : 0 < m.chunkSize := Nat.mul_pos m.chunkPages_pos pos
  obtain ⟨buf, comp, produced, at', length, same⟩ := sequential.produce s.comp _
    (zeros m.chunkSize) (m.pageOf address * m.pageSize) at_q (Nat.mul_le_mul_right _ ahead)
    (LazyMap.lt_pageCount_iff.mp before) (List.ne_nil_of_length_pos (by rwa [length_zeros]))
    (by rwa [length_zeros])
  rw [length_zeros] at at' length same
  refine ⟨comp, buf, by rwa [Nat.add_mul], length, same, ?_⟩
  intro count pages
  have counted : alignUp m.pageSize (if q * m.pageSize + m.chunkSize > m.destSize then
      m.destSize - q * m.pageSize else m.chunkSize) = count * m.pageSize := copy_length before
  have some : 0 < count := Nat.lt_min.mpr ⟨m.chunkPages_pos, Nat.sub_pos_of_lt before⟩
  have taken : (buf.take (count * m.pageSize)).length = count * m.pageSize := by
    rw [List.length_take, length]
    exact Nat.min_eq_left (Nat.mul_le_mul_right _ (Nat.min_le_left _ _))
  have copy := uffdioCopy_pages taken some (by omega) missing
  have hit : (m.pageOf address * m.pageSize ≥ q * m.pageSize ∧
      m.pageOf address * m.pageSize - q * m.pageSize < count * m.pageSize) ↔
        m.pageOf address < q + count := by
    rw [← Nat.sub_mul, Nat.mul_lt_mul_right pos]
    have := Nat.mul_le_mul_right m.pageSize ahead
    omega
  simp only [handleRound, start, offset, produced, counted, copy, hit]
  rfl

end Round

/-! ## What holds throughout -/

section Invariant

variable {δ : Type} {m : LazyMap} {decomp : δ → Bytes → Nat → Option (DecompResult δ)}
  {status : δ → CompressorStatus} {plain : Bytes} {sizes : Nat → Prop} {At : δ → Nat → Prop}

/-- The first `q` pages are filled, as far as the destination goes, and no
others; each thread that waits has a fault to be handled. -/
structure LazyInv (m : LazyMap) (plain : Bytes) (At : δ → Nat → Prop) (s : LazyState δ) (q : Nat) :
    Prop where
  at_pages : At s.comp (q * m.pageSize)
  filled : ∀ i, i < q → i < m.pageCount → ∃ page, s.pages i = some page ∧ m.Shows plain i page
  missing : ∀ i, q ≤ i ∨ m.pageCount ≤ i → s.pages i = none
  queued : ∀ a ∈ s.queue, m.Holds a
  handled : ∀ a, s.current = some a → m.Holds a
  waiting : ∀ a ∈ s.waiting, m.Holds a
  heard : ∀ i, m.countOn i s.waiting ≤ m.countOn i (s.current.toList ++ s.queue)
  stopped : s.running = false → s.current = none ∧ s.waiting = [] ∧ m.pageCount ≤ q

theorem lazyInv_start {start : δ} (at_start : At start 0) :
    LazyInv m plain At ⟨start, fun _ => none, [], none, [], true⟩ 0 where
  at_pages := by rwa [Nat.zero_mul]
  filled i lt := nomatch lt
  missing _ _ := rfl
  queued a mem := nomatch mem
  handled a eq := nomatch eq
  waiting a mem := nomatch mem
  heard i := Nat.le_refl _
  stopped no := nomatch no

/-- After waking the pages from `first` on, the other threads still have their
faults. -/
theorem LazyInv.heard_wake {s : LazyState δ} {q : Nat} (inv : LazyInv m plain At s q) {address : Nat}
    (current : s.current = some address) {first count : Nat}
    (here : first ≤ m.pageOf address ∧ m.pageOf address < first + count) (i : Nat) :
    m.countOn i (s.wake (m.dest + first * m.pageSize) (count * m.pageSize)).waiting ≤
      m.countOn i s.queue := by
  have woken := LazyMap.countOn_wake inv.waiting first count i
  have heard := inv.heard i
  change m.countOn i (List.filter _ s.waiting) ≤ _
  rw [woken]
  by_cases inside : first ≤ i ∧ i < first + count
  · rw [if_pos inside]
    exact Nat.zero_le _
  · rw [if_neg inside]
    have other : m.pageOf address ≠ i := by
      rintro rfl
      exact inside here
    rw [current] at heard
    simpa [LazyMap.countOn, List.countP_cons, other] using heard

theorem countOn_wake_here {s : LazyState δ} {q : Nat} (inv : LazyInv m plain At s q)
    {address first count : Nat} (here : first ≤ m.pageOf address ∧ m.pageOf address < first + count) :
    m.countOn (m.pageOf address)
      (s.wake (m.dest + first * m.pageSize) (count * m.pageSize)).waiting = 0 := by
  have woken := LazyMap.countOn_wake inv.waiting first count (m.pageOf address)
  rw [if_pos here] at woken
  exact woken

/-- What a round of the handler comes to. -/
structure RoundDone (m : LazyMap) (plain : Bytes) (At : δ → Nat → Prop) (s s' : LazyState δ)
    (address q q' : Nat) : Prop where
  inv : LazyInv m plain At s' q'
  running : s'.running = true
  kept : ∀ i page, s.pages i = some page → s'.pages i = some page
  queue : s'.queue = s.queue
  /-- The page is there and its threads are woken, or the handler goes on with
  the next chunk. -/
  served : s'.current = none ∧ m.pageOf address < q' ∧
      m.countOn (m.pageOf address) s'.waiting = 0 ∨
    s'.current = some address ∧ q' = q + m.chunkPages ∧ q' ≤ m.pageOf address

theorem mem_of_mem_wake {s : LazyState δ} {start len a : Nat} (mem : a ∈ (s.wake start len).waiting) :
    a ∈ s.waiting := List.mem_of_mem_filter mem

theorem handleRound_inv (sequential : Sequential decomp status plain m.destSize sizes At)
    (size : sizes m.chunkSize) {s : LazyState δ} {q address : Nat}
    (inv : LazyInv m plain At s q) (running : s.running = true)
    (current : s.current = some address) :
    ∃ q', RoundDone m plain At s (handleRound m decomp s address) address q q' := by
  have holds := inv.handled address current
  have go : ∀ {P : Prop}, s.running = false → P := by
    intro P stopped
    rw [running] at stopped
    cases stopped
  by_cases produced : m.pageOf address < q
  · obtain ⟨comp, at', round⟩ := handleRound_refused sequential inv.at_pages holds produced
    have here : m.pageOf address ≤ m.pageOf address ∧ m.pageOf address < m.pageOf address + 1 := by
      omega
    have heard := inv.heard_wake current here
    have woken := countOn_wake_here inv here
    rw [Nat.one_mul] at heard woken
    rw [round]
    refine ⟨q, ⟨at', inv.filled, inv.missing, inv.queued, fun _ => nofun,
      fun a mem => inv.waiting a (mem_of_mem_wake mem), heard, go⟩, running, fun _ _ eq => eq, rfl, ?_⟩
    exact .inl ⟨rfl, produced, woken⟩
  · have ahead := Nat.le_of_not_lt produced
    have before : q < m.pageCount := Nat.lt_of_le_of_lt ahead holds.2
    obtain ⟨comp, buf, at', length, same, round⟩ := handleRound_produced sequential size
      inv.at_pages (fun i le => inv.missing i (.inl le)) holds ahead
    dsimp only at round
    generalize counted : min m.chunkPages (m.pageCount - q) = count at round
    generalize copied : m.copied s.pages q count (buf.take (count * m.pageSize)) = pages at round
    have old : ∀ i, i < q → pages i = s.pages i := by
      intro i lt
      rw [← copied]
      exact if_neg fun inside => Nat.lt_irrefl _ (Nat.lt_of_lt_of_le lt inside.1)
    have filled : ∀ i, i < q + m.chunkPages → i < m.pageCount →
        ∃ page, pages i = some page ∧ m.Shows plain i page := by
      intro i lt inside
      by_cases new : q ≤ i
      · rw [← copied, ← counted]
        exact copied_shows length same ⟨new, by omega⟩
      · rw [old i (Nat.lt_of_not_le new)]
        exact inv.filled i (Nat.lt_of_not_le new) inside
    have missing : ∀ i, q + m.chunkPages ≤ i ∨ m.pageCount ≤ i → pages i = none := by
      intro i beyond
      rw [← copied]
      have outside : ¬ (q ≤ i ∧ i < q + count) := by omega
      exact (if_neg outside).trans (inv.missing i (by omega))
    have kept : ∀ i page, s.pages i = some page → pages i = some page := by
      intro i page there
      have lt : i < q := by
        apply Nat.lt_of_not_le
        intro le
        rw [inv.missing i (.inl le)] at there
        cases there
      rw [old i lt]
      exact there
    rw [round]
    by_cases hit : m.pageOf address < q + count
    · rw [if_pos hit]
      refine ⟨q + m.chunkPages, ⟨at', filled, missing, inv.queued, fun _ => nofun,
        fun a mem => inv.waiting a (mem_of_mem_wake mem), inv.heard_wake current ⟨ahead, hit⟩, go⟩,
        running, kept, rfl, .inl ⟨rfl, by omega, countOn_wake_here inv ⟨ahead, hit⟩⟩⟩
    · rw [if_neg hit]
      refine ⟨q + m.chunkPages, ⟨at', filled, missing, inv.queued, inv.handled, inv.waiting,
        inv.heard, go⟩, running, kept, rfl, .inr ⟨current, rfl, ?_⟩⟩
      have := holds.2
      omega

theorem threadStep_inv {s s' : LazyState δ} {q : Nat} (inv : LazyInv m plain At s q)
    (step : ThreadStep m s s') :
    LazyInv m plain At s' q ∧ s'.pages = s.pages ∧ s'.current = s.current := by
  cases step with
  | fault address running holds =>
    refine ⟨⟨inv.at_pages, inv.filled, inv.missing, ?_, inv.handled, ?_, fun i => ?_, ?_⟩, rfl, rfl⟩
    · intro a mem
      rcases List.mem_cons.mp mem with rfl | mem
      · exact holds
      · exact inv.queued a mem
    · intro a mem
      rcases List.mem_cons.mp mem with rfl | mem
      · exact holds
      · exact inv.waiting a mem
    · have heard := inv.heard i
      simp only [LazyMap.countOn, List.countP_append, List.countP_cons] at heard ⊢
      omega
    · intro stopped
      rw [running] at stopped
      cases stopped
  | drop address mem more =>
    refine ⟨⟨inv.at_pages, inv.filled, inv.missing, ?_, inv.handled, inv.waiting, fun i => ?_,
      inv.stopped⟩, rfl, rfl⟩
    · intro a mem'
      exact inv.queued a (List.mem_of_mem_erase mem')
    · have heard := inv.heard i
      have same := (List.perm_cons_erase mem).countP_eq fun a => decide (m.pageOf a = i)
      simp only [LazyMap.countOn, List.countP_append, List.countP_cons, decide_eq_true_eq]
        at heard same more ⊢
      by_cases on : m.pageOf address = i
      · rw [on] at more
        rw [if_pos on] at same
        omega
      · rw [if_neg on] at same
        omega

theorem pageCount_le_of_destSize {q : Nat} (le : m.destSize ≤ q * m.pageSize) :
    m.pageCount ≤ q := by
  apply Nat.le_of_not_lt
  intro lt
  have := LazyMap.lt_pageCount_iff.mp lt
  omega

/-- What is left for the handler to do. -/
def LazyState.work (m : LazyMap) (s : LazyState δ) (q : Nat) : Nat :=
  s.running.toNat + s.queue.length * (m.pageCount + 2) +
    s.current.elim 0 fun _ => m.pageCount + 1 - min q m.pageCount

/-- What a step of the handler comes to. -/
structure HandlerDone (m : LazyMap) (plain : Bytes) (At : δ → Nat → Prop) (s s' : LazyState δ)
    (q q' : Nat) : Prop where
  inv : LazyInv m plain At s' q'
  kept : ∀ i page, s.pages i = some page → s'.pages i = some page
  less : s'.work m q' < s.work m q
  served : ∀ address, s.current = some address →
    s'.current = none ∧ m.pageOf address < q' ∧
      m.countOn (m.pageOf address) s'.waiting = 0 ∨
    s'.current = some address ∧ q' = q + m.chunkPages ∧ q' ≤ m.pageOf address

theorem handlerStep_inv (sequential : Sequential decomp status plain m.destSize sizes At)
    (size : sizes m.chunkSize) {s s' : LazyState δ} {q : Nat} (inv : LazyInv m plain At s q)
    (step : HandlerStep m decomp status s s') : ∃ q', HandlerDone m plain At s s' q q' := by
  cases step with
  | read address running none _ mem =>
    have same : ∀ i, m.countOn i (address :: s.queue.erase address) = m.countOn i s.queue :=
      fun i => ((List.perm_cons_erase mem).countP_eq _).symm
    refine ⟨q, ⟨inv.at_pages, inv.filled, inv.missing, ?_, ?_, inv.waiting, fun i => ?_, ?_⟩,
      fun _ _ eq => eq, ?_, fun _ current => ?_⟩
    · intro a mem'
      exact inv.queued a (List.mem_of_mem_erase mem')
    · rintro a ⟨⟩
      exact inv.queued address mem
    · have heard := inv.heard i
      rw [none] at heard
      exact Nat.le_trans heard (Nat.le_of_eq (same i).symm)
    · intro stopped
      have : s.running = false := stopped
      rw [running] at this
      cases this
    · have length := List.length_erase_of_mem mem
      have held := List.length_pos_of_mem mem
      obtain ⟨n, size⟩ := Nat.exists_eq_succ_of_ne_zero (Nat.ne_of_gt held)
      simp only [LazyState.work, length, none, size, Option.elim, Nat.succ_sub_one, Nat.succ_mul]
      omega
    · rw [none] at current
      cases current
  | round address running current =>
    obtain ⟨q', done⟩ := handleRound_inv sequential size inv running current
    refine ⟨q', done.inv, done.kept, ?_, ?_⟩
    · have before := (inv.handled address current).2
      have chunk := m.chunkPages_pos
      simp only [LazyState.work, done.running, running, done.queue, current, Option.elim]
      rcases done.served with ⟨none, -, -⟩ | ⟨again, more, le⟩
      · rw [none]
        simp only
        omega
      · rw [again]
        simp only
        omega
    · intro address' current'
      rw [current] at current'
      cases current'
      exact done.served
  | finish running none done =>
    have whole := pageCount_le_of_destSize (sequential.done _ _ inv.at_pages done)
    refine ⟨q, ⟨inv.at_pages, inv.filled, inv.missing, inv.queued, fun _ => nofun, fun _ => nofun,
      fun _ => Nat.zero_le _, fun _ => ⟨rfl, rfl, whole⟩⟩, fun _ _ eq => eq, ?_, fun _ current => ?_⟩
    · simp only [LazyState.work, LazyState.stop, running, none, Option.elim, Bool.toNat_true,
        Bool.toNat_false]
      omega
    · rw [none] at current
      cases current

theorem lazyStep_inv (sequential : Sequential decomp status plain m.destSize sizes At)
    (size : sizes m.chunkSize) {s s' : LazyState δ} {q : Nat} (inv : LazyInv m plain At s q)
    (step : LazyStep m decomp status s s') : ∃ q', LazyInv m plain At s' q' := by
  cases step with
  | handler step =>
    obtain ⟨q', done⟩ := handlerStep_inv sequential size inv step
    exact ⟨q', done.inv⟩
  | thread step => exact ⟨q, (threadStep_inv inv step).1⟩

theorem lazyRun_inv (sequential : Sequential decomp status plain m.destSize sizes At)
    (size : sizes m.chunkSize) {start : δ} (at_start : At start 0) {s : LazyState δ}
    (run : LazyRun m decomp status start s) : ∃ q, LazyInv m plain At s q := by
  induction run with
  | start => exact ⟨0, lazyInv_start at_start⟩
  | step _ step ih =>
    obtain ⟨q, inv⟩ := ih
    exact lazyStep_inv sequential size inv step

/-! ## What threads see -/

/-- Where the handler cannot go on, no one waits. -/
theorem waiting_nil_of_stuck {s : LazyState δ} {q : Nat} (inv : LazyInv m plain At s q)
    (stuck : ∀ s', ¬ HandlerStep m decomp status s s') : s.waiting = [] := by
  by_cases running : s.running = true
  · cases current : s.current with
    | some address => exact absurd (.round s address running current) (stuck _)
    | none =>
      by_cases done : status s.comp = .done
      · exact absurd (.finish s running current done) (stuck _)
      · have queue : s.queue = [] := by
          apply List.eq_nil_iff_forall_not_mem.mpr
          intro address mem
          exact stuck _ (.read s address running current done mem)
        apply List.eq_nil_iff_forall_not_mem.mpr
        intro a mem
        have heard := inv.heard (m.pageOf a)
        rw [current, queue] at heard
        have here : 0 < m.countOn (m.pageOf a) s.waiting :=
          List.countP_pos_iff.mpr ⟨a, mem, decide_eq_true rfl⟩
        exact Nat.not_lt_of_le heard here
  · exact (inv.stopped (Bool.eq_false_iff.mpr running)).2.1

/-- The handler does not go on for ever. -/
theorem handler_ends (sequential : Sequential decomp status plain m.destSize sizes At)
    (size : sizes m.chunkSize) (work : Nat) :
    ∀ (f : Nat → LazyState δ) (q : Nat), LazyInv m plain At (f 0) q → (f 0).work m q = work →
      ¬ ∀ n, HandlerStep m decomp status (f n) (f (n + 1)) := by
  induction work using Nat.strongRecOn with
  | ind work ih =>
    intro f q inv eq steps
    obtain ⟨q', done⟩ := handlerStep_inv sequential size inv (steps 0)
    exact ih _ (eq ▸ done.less) (fun n => f (n + 1)) q' done.inv rfl fun n => steps (n + 1)

theorem handling_inv (sequential : Sequential decomp status plain m.destSize sizes At)
    (size : sizes m.chunkSize) {s t : LazyState δ} {q address r : Nat}
    (inv : LazyInv m plain At s q) (handling : Handling m decomp address s r t) :
    t.current = some address ∧ ∃ q', LazyInv m plain At t q' ∧ r ≤ q' ∧
      (r = 0 ∨ q' ≤ m.pageOf address) := by
  induction handling with
  | start current => exact ⟨current, q, inv, Nat.zero_le _, .inl rfl⟩
  | thread _ step ih =>
    obtain ⟨current, q', inv', le, last⟩ := ih
    obtain ⟨inv', -, same⟩ := threadStep_inv inv' step
    exact ⟨same.trans current, q', inv', le, last⟩
  | round _ running again ih =>
    obtain ⟨current, q', inv', le, -⟩ := ih
    have chunk := m.chunkPages_pos
    obtain ⟨q'', done⟩ := handleRound_inv sequential size inv' running current
    refine ⟨again, q'', done.inv, ?_⟩
    rcases done.served with ⟨none, -⟩ | ⟨-, more, last⟩
    · rw [again] at none
      cases none
    · exact ⟨by omega, .inr last⟩

/-- What lazy decompression gives, in a state that is reached: the bytes of the
eagerly decompressed buffer `eager`. -/
structure LazyCorrect (m : LazyMap) (decomp : δ → Bytes → Nat → Option (DecompResult δ))
    (status : δ → CompressorStatus) (eager : Bytes) (s : LazyState δ) : Prop where
  bytes : ∀ i page, s.pages i = some page → page.length = m.pageSize ∧
    ∀ j, j < m.pageSize → i * m.pageSize + j < m.destSize →
      page[j]? = eager[i * m.pageSize + j]?
  /-- A page that is filled is not filled again. -/
  once : ∀ s', LazyStep m decomp status s s' → ∀ i page, s.pages i = some page →
    s'.pages i = some page
  /-- A fault is handled in fewer rounds than there are pages. -/
  bounded : ∀ address r t, Handling m decomp address s r t → r < m.pageCount
  /-- When it has been handled, its page is filled, and no one waits for it. -/
  handled : ∀ s' address, LazyStep m decomp status s s' → s.current = some address →
    s'.current = none → (s'.pages (m.pageOf address)).isSome = true ∧
      ∀ a ∈ s'.waiting, m.pageOf a ≠ m.pageOf address
  /-- Who waits has a fault that is still to be handled. -/
  heard : ∀ a ∈ s.waiting, ∃ address ∈ s.current.toList ++ s.queue, m.pageOf address = m.pageOf a
  /-- The handler, left alone, comes to an end, and then no one waits. -/
  ends : ∀ f : Nat → LazyState δ, f 0 = s → ¬ ∀ n, HandlerStep m decomp status (f n) (f (n + 1))
  woken : (∀ s', ¬ HandlerStep m decomp status s s') → s.waiting = []
  /-- It stops only once all pages are filled. -/
  stopped : s.running = false → ∀ i, i < m.pageCount → (s.pages i).isSome = true

theorem LazyInv.correct (sequential : Sequential decomp status plain m.destSize sizes At)
    (size : sizes m.chunkSize) {s : LazyState δ} {q : Nat} (inv : LazyInv m plain At s q)
    {eager : Bytes} (same : ∀ j, j < m.destSize → eager[j]? = plain[j]?) :
    LazyCorrect m decomp status eager s where
  bytes i page there := by
    have before : i < q ∧ i < m.pageCount := by
      by_contra outside
      rw [inv.missing i (by omega)] at there
      cases there
    obtain ⟨page', there', shows⟩ := inv.filled i before.1 before.2
    rw [there] at there'
    cases there'
    refine ⟨shows.length, fun j lt inside => ?_⟩
    rw [same _ inside]
    exact shows.same j lt inside
  once s' step i page there := by
    cases step with
    | handler step =>
      obtain ⟨q', done⟩ := handlerStep_inv sequential size inv step
      exact done.kept i page there
    | thread step =>
      rw [(threadStep_inv inv step).2.1]
      exact there
  bounded address r t handling := by
    obtain ⟨current, q', inv', le, last⟩ := handling_inv sequential size inv handling
    have := (inv'.handled address current).2
    omega
  handled s' address step current none := by
    cases step with
    | handler step =>
      obtain ⟨q', done⟩ := handlerStep_inv sequential size inv step
      rcases done.served address current with ⟨-, filled, woken⟩ | ⟨again, -⟩
      · obtain ⟨page, there, -⟩ := done.inv.filled _ filled (inv.handled address current).2
        refine ⟨by rw [there]; rfl, fun a mem on => ?_⟩
        exact List.countP_eq_zero.mp woken a mem (decide_eq_true on)
      · rw [again] at none
        cases none
    | thread step =>
      rw [(threadStep_inv inv step).2.2, current] at none
      cases none
  heard a mem := by
    have here : 0 < m.countOn (m.pageOf a) s.waiting :=
      List.countP_pos_iff.mpr ⟨a, mem, decide_eq_true rfl⟩
    obtain ⟨address, mem', on⟩ :=
      List.countP_pos_iff.mp (Nat.lt_of_lt_of_le here (inv.heard (m.pageOf a)))
    exact ⟨address, mem', of_decide_eq_true on⟩
  ends f eq steps := by
    subst eq
    exact handler_ends sequential size _ f q inv rfl steps
  woken := waiting_nil_of_stuck inv
  stopped no i lt := by
    obtain ⟨page, there, -⟩ := inv.filled i (Nat.lt_of_lt_of_le lt (inv.stopped no).2.2) lt
    rw [there]
    rfl

/-- Whatever the faults and their order, threads see the bytes that eager
decompression gives, and none of them waits for ever. -/
theorem lazy_equals_eager (sequential : Sequential decomp status plain m.destSize sizes At)
    (size : sizes m.chunkSize) (whole : sizes m.destSize) {start : δ} (at_start : At start 0)
    {s : LazyState δ} (run : LazyRun m decomp status start s) :
    ∃ eager, decomp start (zeros m.destSize) 0 = some eager ∧
      LazyCorrect m decomp status eager.buf s := by
  have held : zeros m.destSize ≠ [] := by
    apply List.ne_nil_of_length_pos
    rw [length_zeros]
    exact m.destSize_pos
  obtain ⟨buf, comp, produced, -, -, same⟩ := sequential.produce start 0 (zeros m.destSize) 0
    at_start (Nat.le_refl _) m.destSize_pos held (by rwa [length_zeros])
  obtain ⟨q, inv⟩ := lazyRun_inv sequential size at_start run
  refine ⟨_, produced, inv.correct sequential size fun j lt => ?_⟩
  have := same j (by rwa [length_zeros]) (by rwa [Nat.zero_add])
  rwa [Nat.zero_add] at this

end Invariant

/-! ## The registered decompressors -/

section Registered

variable {plain : Bytes} {destSize : Nat}

/-- The LZ4 decompressor after `p` bytes. -/
structure Lz4At (lib : Lz4Lib) (plain : Bytes) (destSize : Nat) (lz4 : Lz4State) (p : Nat) :
    Prop where
  pending : lz4.Pending lib (plain.drop (min p destSize))
  progress : lz4.progress = p
  size : lz4.destSize = destSize
  done : lz4.status = .done → destSize ≤ p

theorem lz4_sequential {lib : Lz4Lib} (enough : destSize ≤ plain.length) :
    Sequential (lz4Decomp lib) (·.status) plain destSize (fun _ => True)
      (Lz4At lib plain destSize) where
  enough := enough
  produce lz4 p buf hint at_p ahead inside _ _ := by
    obtain ⟨pending, progress, size, -⟩ := at_p
    rw [Nat.min_eq_left (Nat.le_of_lt inside)] at pending
    have rest : min buf.length (destSize - p) ≤ (plain.drop p).length := by
      rw [List.length_drop]
      omega
    obtain ⟨lz4', decomp, pending', progress', size', done⟩ := lz4Decomp_pending pending buf hint
      (by omega) (by omega) (by rwa [progress, size])
    rw [progress, size] at decomp pending' done
    generalize written : min buf.length (destSize - p) = n at decomp pending' rest
    have taken : ((plain.drop p).take n).length = n := by
      rw [List.length_take]
      exact Nat.min_eq_left rest
    refine ⟨_, lz4', decomp, ⟨?_, by omega, by omega, done.mp⟩, ?_, fun j lt within => ?_⟩
    · have next : min (p + buf.length) destSize = p + n := by omega
      rw [next, ← List.drop_drop]
      exact pending'
    · rw [List.length_append, taken, List.length_drop]
      omega
    · rw [List.getElem?_append_left (by omega), List.getElem?_take_of_lt (by omega),
        List.getElem?_drop]
  refuse lz4 p buf hint at_p before := by
    obtain ⟨⟨rest, eq, unread⟩, progress, size, -⟩ := at_p
    refine ⟨buf, { lz4 with status := .inProgress }, ?_,
      ⟨rest, eq, unread.inside, unread.header, unread.decodes⟩, progress, size, nofun⟩
    rw [← progress] at before
    simp only [lz4Decomp, before, if_true]
  done lz4 p at_p := at_p.done

theorem lz4At_init {lib : Lz4Lib} {data : Bytes} (decodes : Decodes lib data plain)
    (enough : destSize ≤ plain.length) (held : 0 < destSize) :
    ∃ lz4, lz4Init data destSize = some lz4 ∧ Lz4At lib plain destSize lz4 0 := by
  have some : plain ≠ [] := List.ne_nil_of_length_pos (by omega)
  obtain ⟨lz4, init, pending, progress, size, status⟩ := lz4Init_pending decodes some destSize
  refine ⟨lz4, init, by rwa [Nat.zero_min], progress, size, fun done => ?_⟩
  rw [status] at done
  cases done

/-- A library whose stream gives `plain` from the front, as much as there is room
for, and does not end before it. -/
structure StreamLib.Gives (lib : StreamLib) (plain : Bytes) (Given : lib.Stream → Nat → Prop) :
    Prop where
  run : ∀ stream p availOut, Given stream p → p < plain.length → 0 < availOut →
    ∃ ended stream', lib.run stream availOut =
        some (ended, (plain.drop p).take availOut, stream') ∧
      Given stream' (min (p + availOut) plain.length) ∧
      (ended = true → plain.length ≤ p + availOut)

structure StreamAt (lib : StreamLib) (plain : Bytes) (destSize : Nat)
    (Given : lib.Stream → Nat → Prop) (state : StreamState lib) (p : Nat) : Prop where
  given : Given state.stream (min p plain.length)
  progress : state.progress = p
  done : state.status = .done → destSize ≤ p

theorem stream_sequential {lib : StreamLib} {Given : lib.Stream → Nat → Prop}
    (gives : lib.Gives plain Given) (enough : destSize ≤ plain.length) :
    Sequential (streamDecomp lib) (·.status) plain destSize (· < 2 ^ 32)
      (StreamAt lib plain destSize Given) where
  enough := enough
  produce state p buf hint at_p ahead inside held small := by
    obtain ⟨given, progress, -⟩ := at_p
    rw [Nat.min_eq_left (by omega)] at given
    have length := List.length_pos_of_ne_nil held
    obtain ⟨ended, stream, run, given', last⟩ := gives.run _ p buf.length given (by omega) length
    have room : ((plain.drop p).take buf.length).length ≤ buf.length := List.length_take_le _ _
    have not_before : ¬ hint < p := Nat.not_lt_of_le ahead
    refine ⟨(plain.drop p).take buf.length ++
      buf.drop ((plain.drop p).take buf.length).length, {
        status := if ended then .done else .inProgress
        stream := stream
        progress := p + buf.length }, ?_, ⟨given', rfl, ?_⟩, ?_, fun j lt within => ?_⟩
    · simp only [streamDecomp, progress, not_before, if_false, counter32_of_lt small, run]
    · intro done
      cases ended with
      | true => exact Nat.le_trans enough (last rfl)
      | false => cases done
    · rw [List.length_append, List.length_drop]
      omega
    · have there : j < ((plain.drop p).take buf.length).length := by
        rw [List.length_take, List.length_drop]
        omega
      rw [List.getElem?_append_left there, List.getElem?_take_of_lt lt, List.getElem?_drop]
  refuse state p buf hint at_p before := by
    obtain ⟨given, progress, -⟩ := at_p
    refine ⟨buf, { state with status := .inProgress }, ?_, given, progress,
      fun done => by cases done⟩
    rw [← progress] at before
    simp only [streamDecomp, before, if_true]
  done state p at_p := at_p.done

end Registered

/-! ## An example -/

/-- Two pages of four bytes, the second of them not whole. -/
def smallMap : LazyMap where
  pageBits := 2
  chunkPages := 1
  destSize := 6
  dest := 8
  pageBits_le := by decide
  chunkPages_pos := by decide
  chunkSize_le := by decide
  destSize_pos := by decide
  destSize_le := by decide
  aligned := by decide
  inside := by decide

/-- A library that gives its input. -/
def copyLib : StreamLib where
  Stream := Bytes
  start packed := packed
  run stream availOut :=
    some (stream.length ≤ availOut, stream.take availOut, stream.drop availOut)

def smallStart : StreamState copyLib := streamInit copyLib [1, 2, 3, 4, 5, 6, 7]

/-- A fault on the second page has been read. -/
def smallFault : LazyState (StreamState copyLib) :=
  ⟨smallStart, fun _ => none, [], some 12, [12], true⟩

theorem copyLib_gives (plain : Bytes) :
    copyLib.Gives plain fun stream p => stream = plain.drop p := by
  constructor
  intro stream p availOut given inside some
  subst given
  refine ⟨_, _, rfl, ?_, ?_⟩
  · change (plain.drop p).drop availOut = plain.drop (min (p + availOut) plain.length)
    rw [List.drop_drop]
    by_cases le : p + availOut ≤ plain.length
    · rw [Nat.min_eq_left le]
    · rw [Nat.min_eq_right (by omega), List.drop_length, List.drop_of_length_le (by omega)]
  · intro ended
    have le := of_decide_eq_true ended
    rw [List.length_drop] at le
    omega

/-- The first page is filled on the way to the second. -/
theorem lazy_equals_eager_small : ∃ s eager,
    LazyRun smallMap (streamDecomp copyLib) (·.status) smallStart s ∧
    s.pages 0 = some [1, 2, 3, 4] ∧ s.pages 1 = some [5, 6, 7, 0] ∧ s.waiting = [] ∧
    streamDecomp copyLib smallStart (zeros 6) 0 = some eager ∧
    LazyCorrect smallMap (streamDecomp copyLib) (·.status) eager.buf s := by
  have fault : LazyRun smallMap (streamDecomp copyLib) (·.status) smallStart smallFault :=
    .step (.step .start (.thread (.fault _ 12 rfl (by unfold LazyMap.Holds; decide))))
      (.handler (.read _ 12 rfl rfl nofun List.mem_cons_self))
  have run := LazyRun.step (LazyRun.step fault (.handler (.round _ 12 rfl rfl)))
    (.handler (.round _ 12 rfl rfl))
  have at_start : StreamAt copyLib [1, 2, 3, 4, 5, 6, 7] 6
      (fun stream p => stream = List.drop p [1, 2, 3, 4, 5, 6, 7]) smallStart 0 := ⟨rfl, rfl, nofun⟩
  obtain ⟨eager, whole, correct⟩ := lazy_equals_eager
    (stream_sequential (copyLib_gives _) (by decide)) (by decide) (by decide) at_start run
  exact ⟨_, eager, run, rfl, rfl, rfl, whole, correct⟩

end LibAsdf
