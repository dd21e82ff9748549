import LibAsdf.Compression.Lz4Frames

/-!
# The LZ4 decompressor in memory

The same callbacks on the buffers that they read and write, where a header may be
held in part, and a call that fails leaves a state for the next.

* `Lz4Userdata`: the state, with its buffers; `Lz4Userdata.view`: what it stands
  for;
* `Lz4Heap`: what is up to the memory;
* `readHeader`, `readBlock`, `decomp`: the callbacks;
* `Lz4Userdata.Held`: the invariant that every call keeps;
* `readHeader_run`, `readBlock_run`, `copy_run`, `decomp_run`: no access is
  outside, and a call that succeeds does what it does on what the state stands
  for;
* `lz4_untrusted`: any calls on any input.
-/

namespace LibAsdf

/-! ## The state -/

/-- `asdf_compressor_lz4_userdata_t`. Of the buffers, `block` is as large as its
capacity. -/
structure Lz4Userdata where
  status : CompressorStatus
  data : Bytes
  destSize : Nat
  pos : Nat
  progress : Nat
  headerBuf : Bytes
  headerPos : Nat
  blockSize : Int
  decompBlockSize : Int
  block : Bytes
  size : Nat
  blockPos : Nat
  deriving DecidableEq, Repr

/-- What is up to the memory: the bytes that `realloc` adds to a buffer, `none`
where there are none to be had, and what a call of `LZ4_decompress_safe` that
fails leaves at the front of its buffer. -/
structure Lz4Heap where
  grow : Nat → Nat → Option Bytes
  spoil : Bytes → Nat → Bytes

/-- Nothing is written past the capacity. -/
structure Lz4Heap.Sound (heap : Lz4Heap) : Prop where
  grow : ∀ pos n bytes, heap.grow pos n = some bytes → bytes.length = n
  spoil : ∀ packed capacity, (heap.spoil packed capacity).length ≤ capacity

/-- `LZ4_decompress_safe` writes at most its capacity. -/
def Lz4Lib.Bounded (lib : Lz4Lib) : Prop :=
  ∀ packed capacity out, lib.decompressSafe packed capacity = some out → out.length ≤ capacity

namespace Lz4Userdata

/-- The state after `calloc`, and the fields that are set. -/
def fresh (data : Bytes) (destSize : Nat) : Lz4Userdata where
  status := .initialized
  data := data
  destSize := destSize
  pos := 0
  progress := 0
  headerBuf := List.replicate lz4HeaderSize 0
  headerPos := 0
  blockSize := 0
  decompBlockSize := 0
  block := []
  size := 0
  blockPos := 0

def avail (lz4 : Lz4Userdata) : Nat := sizeSub lz4.size lz4.blockPos

/-! ## The callbacks

Of the codes that are returned, only whether they are zero is kept. -/

/-- The loop of `asdf_compressor_lz4_read_header`. -/
def headerByte (lz4 : Lz4Userdata) : Run (Lz4Userdata ⊕ Lz4Userdata) :=
  if lz4.headerPos < lz4HeaderSize ∧ lz4.pos < lz4.data.length then do
    let byte ← load lz4.data lz4.pos 1
    let buf ← store lz4.headerBuf lz4.headerPos byte
    return .inl { lz4 with headerBuf := buf, headerPos := lz4.headerPos + 1, pos := lz4.pos + 1 }
  else return .inr lz4

/-- `asdf_compressor_lz4_read_header`. -/
def readHeader (rounds : Nat) (lz4 : Lz4Userdata) : Run (Bool × Lz4Userdata) :=
  if lz4.headerPos = lz4HeaderSize then return (true, lz4)
  else do
    let lz4 ← Outcome.loop headerByte rounds lz4
    if lz4.headerPos < lz4HeaderSize then return (false, lz4)
    else return (true, { lz4 with
      blockSize := blockSizeOf lz4.headerBuf
      decompBlockSize := decompBlockSizeOf lz4.headerBuf })

/-- The buffer for a block, which is only ever made larger. -/
def reserve (heap : Lz4Heap) (lz4 : Lz4Userdata) : Option Lz4Userdata :=
  if lz4.decompBlockSize.toNat > lz4.block.length then
    (heap.grow lz4.pos (lz4.decompBlockSize.toNat - lz4.block.length)).map fun more =>
      { lz4 with block := lz4.block ++ more }
  else some lz4

/-- The call of `LZ4_decompress_safe`, and what is made of its result. -/
def unpack (lib : Lz4Lib) (heap : Lz4Heap) (lz4 : Lz4Userdata) : Run (Bool × Lz4Userdata) := do
  let packed ← load lz4.data lz4.pos lz4.blockSize.toNat
  match lib.decompressSafe packed lz4.size with
  | none =>
    let block ← store lz4.block 0 (heap.spoil packed lz4.size)
    return (false, { lz4 with block := block })
  | some out =>
    let block ← store lz4.block 0 out
    if out.length ≠ lz4.size then return (false, { lz4 with block := block })
    else return (true, { lz4 with
      block := block
      pos := lz4.pos + lz4.blockSize.toNat
      headerPos := 0 })

/-- `asdf_compresser_lz4_read_block`. -/
def readBlock (lib : Lz4Lib) (heap : Lz4Heap) (rounds : Nat) (lz4 : Lz4Userdata) :
    Run (Bool × Lz4Userdata) := do
  let (ok, lz4) ← lz4.readHeader rounds
  if !ok then return (false, lz4)
  else if lz4.blockSize ≤ 0 then return (false, lz4)
  else if lz4.decompBlockSize < 0 then return (false, lz4)
  else if lz4.blockSize.toNat > sizeSub lz4.data.length lz4.pos then return (false, lz4)
  else
    match lz4.reserve heap with
    | none => return (false, lz4)
    | some lz4 => unpack lib heap { lz4 with size := lz4.decompBlockSize.toNat, blockPos := 0 }

/-- The locals of the loop of `asdf_compressor_lz4_decomp`, and the buffer. -/
structure Copy where
  lz4 : Lz4Userdata
  buf : Bytes
  pos : Nat
  need : Nat

/-- The next block, where nothing is left of the last. -/
def nextBlock (lib : Lz4Lib) (heap : Lz4Heap) (rounds : Nat) (lz4 : Lz4Userdata) :
    Run (Bool × Lz4Userdata) :=
  if lz4.avail = 0 then lz4.readBlock lib heap rounds else return (true, lz4)

/-- The loop of `asdf_compressor_lz4_decomp`. What is read of a block is within
what was decoded, which may be less than its buffer holds. -/
def copyStep (lib : Lz4Lib) (heap : Lz4Heap) (rounds : Nat) (s : Copy) :
    Run (Copy ⊕ Bool × Copy) :=
  if s.need = 0 then return .inr (true, s)
  else do
    let (ok, lz4) ← s.lz4.nextBlock lib heap rounds
    if !ok then return .inr (false, { s with lz4 := lz4 })
    else if lz4.avail = 0 then return .inr (false, { s with lz4 := lz4 })
    else
      let take := if lz4.avail < s.need then lz4.avail else s.need
      let chunk ← load (lz4.block.take lz4.size) lz4.blockPos take
      let buf ← store s.buf s.pos chunk
      return .inl {
        lz4 := { lz4 with blockPos := lz4.blockPos + take }
        buf := buf
        pos := s.pos + take
        need := s.need - take }

/-- `asdf_compressor_lz4_decomp`. -/
def decomp (lib : Lz4Lib) (heap : Lz4Heap) (rounds : Nat) (lz4 : Lz4Userdata) (buf : Bytes)
    (offsetHint : Nat) : Run (Bool × DecompResult Lz4Userdata) :=
  let lz4 := { lz4 with status := .inProgress }
  if offsetHint < lz4.progress then return (true, ⟨none, buf, lz4⟩)
  else do
    let remaining := sizeSub lz4.destSize lz4.progress
    let need := if buf.length < remaining then buf.length else remaining
    let (ok, s) ← Outcome.loop (copyStep lib heap rounds) rounds ⟨lz4, buf, 0, need⟩
    if !ok then return (false, ⟨none, s.buf, s.lz4⟩)
    else
      let progress := (s.lz4.progress + s.buf.length) % 2 ^ 64
      return (true, ⟨some s.lz4.progress, s.buf, { s.lz4 with
        progress := progress
        status := if progress ≥ s.lz4.destSize then .done else .inProgress }⟩)

end Lz4Userdata

/-- A call: the buffer, whose size is all that is known of it, the offset, and
the memory at the time. -/
structure Lz4Call where
  buf : Bytes
  offsetHint : Nat
  heap : Lz4Heap

/-- What is answered to calls one after the other, also after one has failed. -/
def lz4Calls (lib : Lz4Lib) (rounds : Nat) (lz4 : Lz4Userdata) :
    List Lz4Call → Run (List (Bool × DecompResult Lz4Userdata))
  | [] => return []
  | call :: calls => do
    let answer ← lz4.decomp lib call.heap rounds call.buf call.offsetHint
    let answers ← lz4Calls lib rounds answer.2.state calls
    return answer :: answers

/-- `asdf_compressor_lz4_init`, and the calls if it succeeds. -/
def lz4Session (lib : Lz4Lib) (rounds : Nat) (data : Bytes) (destSize : Nat)
    (calls : List Lz4Call) : Run (List (Bool × DecompResult Lz4Userdata)) := do
  let (ok, lz4) ← (Lz4Userdata.fresh data destSize).readHeader rounds
  if ok then lz4Calls lib rounds lz4 calls else return []

/-- The bytes that a call puts out: the whole buffer, if it says where they go. -/
def DecompResult.output {δ : Type} (r : DecompResult δ) : Bytes :=
  if r.offset.isSome then r.buf else []

/-- A store where a first part of an allocation ends. -/
theorem store_append (front rest bytes : Bytes) (room : bytes.length ≤ rest.length) :
    store (front ++ rest) front.length bytes =
      .ret (front ++ bytes ++ rest.drop bytes.length) := by
  have inside : front.length + bytes.length ≤ (front ++ rest).length := by
    rw [List.length_append]
    omega
  rw [store, if_pos inside, List.take_left, ← List.drop_drop, List.drop_left]

namespace Lz4Userdata

variable {lib : Lz4Lib} {heap : Lz4Heap} {rounds : Nat} {lz4 : Lz4Userdata}

/-! ## What a state stands for -/

def view (lz4 : Lz4Userdata) : Lz4State where
  status := lz4.status
  data := lz4.data
  destSize := lz4.destSize
  pos := lz4.pos
  progress := lz4.progress
  header := lz4.headerBuf.take lz4.headerPos
  blockSize := lz4.blockSize
  decompBlockSize := lz4.decompBlockSize
  block := lz4.block.take lz4.size
  blockPos := lz4.blockPos

/-- Every position is inside what it is a position in. -/
structure Held (lz4 : Lz4Userdata) : Prop where
  inside : lz4.pos ≤ lz4.data.length
  header : lz4.headerBuf.length = lz4HeaderSize
  headerPos : lz4.headerPos ≤ lz4HeaderSize
  size : lz4.size ≤ lz4.block.length
  blockPos : lz4.blockPos ≤ lz4.size

theorem Held.avail_eq (held : lz4.Held) : lz4.avail = lz4.view.avail := by
  unfold avail Lz4State.avail view
  rw [sizeSub_of_le held.blockPos, List.length_take, Nat.min_eq_left held.size]

theorem Held.length_header (held : lz4.Held) : lz4.view.header.length = lz4.headerPos := by
  unfold view
  rw [List.length_take, held.header, Nat.min_eq_left held.headerPos]

/-! ## Headers -/

/-- The state with `n` more bytes of the header. -/
def withHeader (lz4 : Lz4Userdata) (n : Nat) : Lz4Userdata :=
  { lz4 with
    headerBuf := lz4.headerBuf.take lz4.headerPos ++ (lz4.data.drop lz4.pos).take n ++
      lz4.headerBuf.drop (lz4.headerPos + n)
    headerPos := lz4.headerPos + n
    pos := lz4.pos + n }

theorem withHeader_zero (lz4 : Lz4Userdata) : lz4.withHeader 0 = lz4 := by
  simp only [withHeader, Nat.add_zero, List.take_zero, List.append_nil, List.take_append_drop]

/-- A header has place for what is missing of it, and the input is that long. -/
structure Missing (lz4 : Lz4Userdata) (n : Nat) : Prop where
  place : lz4.headerPos + n ≤ lz4HeaderSize
  input : lz4.pos + n ≤ lz4.data.length

theorem Missing.length_read {n : Nat} (held : lz4.Held) (missing : lz4.Missing n) :
    (lz4.headerBuf.take lz4.headerPos ++ (lz4.data.drop lz4.pos).take n).length =
      lz4.headerPos + n := by
  have input := missing.input
  rw [List.length_append, List.length_take, held.header, Nat.min_eq_left held.headerPos,
    List.length_take, List.length_drop, Nat.min_eq_left (by omega)]

theorem Missing.held {n : Nat} (held : lz4.Held) (missing : lz4.Missing n) :
    (lz4.withHeader n).Held where
  inside := missing.input
  header := by
    have place := missing.place
    unfold withHeader
    rw [List.length_append, missing.length_read held, List.length_drop, held.header]
    omega
  headerPos := missing.place
  size := held.size
  blockPos := held.blockPos

/-- The part of the header that has been read. -/
theorem Missing.header {n : Nat} (held : lz4.Held) (missing : lz4.Missing n) :
    (lz4.withHeader n).view.header =
      lz4.view.header ++ (lz4.data.drop lz4.pos).take n := by
  simp only [view, withHeader]
  rw [← missing.length_read held, List.take_left]

theorem headerByte_withHeader {n : Nat} (held : lz4.Held) (missing : lz4.Missing (n + 1)) :
    headerByte (lz4.withHeader n) = .ret (.inl (lz4.withHeader (n + 1))) := by
  obtain ⟨place, input⟩ := missing
  have before : lz4.Missing n := ⟨by omega, by omega⟩
  have more : (lz4.withHeader n).headerPos < lz4HeaderSize ∧
      (lz4.withHeader n).pos < (lz4.withHeader n).data.length := by
    constructor
    · change lz4.headerPos + n < _
      omega
    · change lz4.pos + n < lz4.data.length
      omega
  have one : ((lz4.data.drop (lz4.pos + n)).take 1).length = 1 := by
    rw [List.length_take, List.length_drop]
    omega
  have loaded : load (lz4.withHeader n).data (lz4.withHeader n).pos 1 =
      .ret ((lz4.data.drop (lz4.pos + n)).take 1) := load_of_le more.2
  have stored : store (lz4.withHeader n).headerBuf (lz4.withHeader n).headerPos
      ((lz4.data.drop (lz4.pos + n)).take 1) = .ret (lz4.withHeader (n + 1)).headerBuf := by
    have room : ((lz4.data.drop (lz4.pos + n)).take 1).length ≤
        (lz4.headerBuf.drop (lz4.headerPos + n)).length := by
      rw [one, List.length_drop, held.header]
      omega
    have written := store_append (lz4.headerBuf.take lz4.headerPos ++
      (lz4.data.drop lz4.pos).take n) _ _ room
    have read : (lz4.headerBuf.take lz4.headerPos ++ (lz4.data.drop lz4.pos).take n) ++
        (lz4.data.drop (lz4.pos + n)).take 1 =
          lz4.headerBuf.take lz4.headerPos ++ (lz4.data.drop lz4.pos).take (n + 1) := by
      rw [List.append_assoc, ← List.drop_drop, ← List.take_add]
    rw [before.length_read held, one, read, List.drop_drop] at written
    exact written
  rw [headerByte, if_pos more, loaded, Outcome.ret_bind, stored]
  rfl

theorem headerLoop_run (n k : Nat) (held : lz4.Held) (missing : lz4.Missing (n + k))
    (last : lz4.headerPos + (n + k) = lz4HeaderSize ∨ lz4.pos + (n + k) = lz4.data.length)
    (enough : k < rounds) :
    Outcome.loop headerByte rounds (lz4.withHeader n) = .ret (lz4.withHeader (n + k)) := by
  induction k generalizing n rounds with
  | zero =>
    obtain ⟨rounds, rfl⟩ := Nat.exists_eq_add_one.mpr enough
    apply Outcome.loop_of_exit
    apply if_neg
    change ¬ (lz4.headerPos + n < lz4HeaderSize ∧ lz4.pos + n < lz4.data.length)
    omega
  | succ k ih =>
    obtain ⟨rounds, rfl⟩ := Nat.exists_eq_add_one.mpr (Nat.zero_lt_of_lt enough)
    have next : lz4.Missing (n + 1) := by
      obtain ⟨place, input⟩ := missing
      exact ⟨by omega, by omega⟩
    rw [Outcome.loop_of_continue (headerByte_withHeader held next)]
    have arith : n + (k + 1) = n + 1 + k := by omega
    rw [arith] at missing last ⊢
    exact ih (n + 1) missing last (by omega)

/-- What no reading of a header or a block changes. -/
def Keeps (lz4 lz4' : Lz4Userdata) : Prop :=
  lz4'.data = lz4.data ∧ lz4'.destSize = lz4.destSize ∧ lz4'.progress = lz4.progress

/-- A header is read as it is of what the state stands for. -/
theorem readHeader_run (held : lz4.Held) (enough : lz4HeaderSize < rounds) :
    ∃ ok lz4', lz4.readHeader rounds = .ret (ok, lz4') ∧ lz4'.Held ∧ lz4.Keeps lz4' ∧
      (ok = true → lz4ReadHeader lz4.view = some lz4'.view) := by
  by_cases full : lz4.headerPos = lz4HeaderSize
  · refine ⟨true, lz4, if_pos full, held, ⟨rfl, rfl, rfl⟩, ?_⟩
    intro _
    exact if_pos (held.length_header.trans full)
  · have inside := held.inside
    have bound := held.headerPos
    generalize count : min (lz4HeaderSize - lz4.headerPos) (lz4.data.length - lz4.pos) = n
    have missing : lz4.Missing n := ⟨by omega, by omega⟩
    have run : Outcome.loop headerByte rounds lz4 = .ret (lz4.withHeader n) := by
      have start : Outcome.loop headerByte rounds (lz4.withHeader 0) =
          .ret (lz4.withHeader (0 + n)) :=
        headerLoop_run 0 n held (by rwa [Nat.zero_add]) (by rw [Nat.zero_add]; omega) (by omega)
      rwa [withHeader_zero, Nat.zero_add] at start
    by_cases short : (lz4.withHeader n).headerPos < lz4HeaderSize
    · refine ⟨false, lz4.withHeader n, ?_, missing.held held, ⟨rfl, rfl, rfl⟩, nofun⟩
      rw [readHeader, if_neg full, run, Outcome.ret_bind, if_pos short]
      rfl
    · have whole : lz4.headerPos + n = lz4HeaderSize := by
        change ¬ lz4.headerPos + n < lz4HeaderSize at short
        omega
      refine ⟨true, { lz4.withHeader n with
          blockSize := blockSizeOf (lz4.withHeader n).headerBuf
          decompBlockSize := decompBlockSizeOf (lz4.withHeader n).headerBuf }, ?_, ?_,
        ⟨rfl, rfl, rfl⟩, ?_⟩
      · rw [readHeader, if_neg full, run, Outcome.ret_bind, if_neg short]
        rfl
      · obtain ⟨inside, header, headerPos, size, blockPos⟩ := missing.held held
        exact ⟨inside, header, headerPos, size, blockPos⟩
      · intro _
        have buf : (lz4.withHeader n).view.header = (lz4.withHeader n).headerBuf := by
          apply List.take_of_length_le
          rw [(missing.held held).header]
          exact Nat.le_of_eq whole.symm
        have header : lz4.view.header ++ (lz4.view.data.drop lz4.view.pos).take n =
            (lz4.withHeader n).view.header := (missing.header held).symm
        have more : lz4HeaderSize - lz4.headerPos = n := by omega
        have length : ((lz4.data.drop lz4.pos).take n).length = n := by
          rw [List.length_take, List.length_drop]
          omega
        unfold lz4ReadHeader
        rw [held.length_header, if_neg full, more]
        dsimp only
        rw [header, (missing.held held).length_header, if_neg short]
        have pos : lz4.view.pos + ((lz4.view.data.drop lz4.view.pos).take n).length = lz4.pos + n :=
          congrArg (lz4.pos + ·) length
        have viewed : view { lz4.withHeader n with
            blockSize := blockSizeOf (lz4.withHeader n).headerBuf
            decompBlockSize := decompBlockSizeOf (lz4.withHeader n).headerBuf } = { lz4.view with
              header := (lz4.withHeader n).view.header
              pos := lz4.pos + n
              blockSize := blockSizeOf (lz4.withHeader n).headerBuf
              decompBlockSize := decompBlockSizeOf (lz4.withHeader n).headerBuf } := rfl
        rw [viewed, pos, buf]

/-! ## Blocks -/

/-- What `realloc` leaves alone, and the place that there is then. -/
theorem reserve_held {lz4' : Lz4Userdata} (sound : heap.Sound) (held : lz4.Held)
    (reserved : lz4.reserve heap = some lz4') :
    lz4'.Held ∧ lz4.decompBlockSize.toNat ≤ lz4'.block.length ∧
      ∃ more, lz4' = { lz4 with block := lz4.block ++ more } := by
  unfold reserve at reserved
  split at reserved
  · obtain ⟨more, grown, rfl⟩ := Option.map_eq_some_iff.mp reserved
    have length := sound.grow _ _ _ grown
    obtain ⟨inside, header, headerPos, size, blockPos⟩ := held
    refine ⟨⟨inside, header, headerPos, ?_, blockPos⟩, ?_, more, rfl⟩
    · change lz4.size ≤ (lz4.block ++ more).length
      rw [List.length_append]
      omega
    · change _ ≤ (lz4.block ++ more).length
      rw [List.length_append]
      omega
  · rename_i enough
    cases reserved
    exact ⟨held, by omega, [], by rw [List.append_nil]⟩

/-- A block is decompressed into a buffer that has room for it. -/
theorem unpack_run (bounded : lib.Bounded) (sound : heap.Sound) (held : lz4.Held)
    (room : lz4.blockSize.toNat ≤ lz4.data.length - lz4.pos) :
    ∃ ok lz4', unpack lib heap lz4 = .ret (ok, lz4') ∧ lz4'.Held ∧ lz4.Keeps lz4' ∧
      (ok = true → ∃ out, lib.decompressSafe
          ((lz4.data.drop lz4.pos).take lz4.blockSize.toNat) lz4.size = some out ∧
        out.length = lz4.size ∧ lz4'.view = { lz4.view with
          block := out
          pos := lz4.pos + lz4.blockSize.toNat
          header := [] }) := by
  obtain ⟨inside, header, headerPos, size, blockPos⟩ := held
  generalize packed_eq : (lz4.data.drop lz4.pos).take lz4.blockSize.toNat = packed
  have loaded : load lz4.data lz4.pos lz4.blockSize.toNat = .ret packed := by
    rw [← packed_eq]
    exact load_of_le (by omega)
  cases result : lib.decompressSafe packed lz4.size with
  | none =>
    have spoiled := sound.spoil packed lz4.size
    obtain ⟨block, stored, length, -⟩ :=
      store_of_le lz4.block 0 (heap.spoil packed lz4.size) (by omega)
    refine ⟨false, { lz4 with block := block }, ?_, ?_, ⟨rfl, rfl, rfl⟩, nofun⟩
    · simp only [unpack, loaded, Outcome.ret_bind, result, stored, Outcome.pure_eq]
    · exact ⟨inside, header, headerPos, length ▸ size, blockPos⟩
  | some out =>
    have fits := bounded _ _ _ result
    obtain ⟨block, stored, length, front⟩ := store_of_le lz4.block 0 out (by omega)
    by_cases whole : out.length = lz4.size
    · refine ⟨true, { lz4 with
        block := block
        pos := lz4.pos + lz4.blockSize.toNat
        headerPos := 0 }, ?_, ?_, ⟨rfl, rfl, rfl⟩, ?_⟩
      · simp only [unpack, loaded, Outcome.ret_bind, result, stored, whole, ne_eq,
          not_true_eq_false, if_false, Outcome.pure_eq]
      · exact ⟨by change lz4.pos + _ ≤ lz4.data.length; omega, header, Nat.zero_le _,
          length ▸ size, blockPos⟩
      · intro _
        refine ⟨out, rfl, whole, ?_⟩
        have taken : block.take lz4.size = out := by
          rw [Nat.zero_add, List.take_zero, List.nil_append, whole] at front
          exact front
        simp only [view, taken, List.take_zero]
    · refine ⟨false, { lz4 with block := block }, ?_, ?_, ⟨rfl, rfl, rfl⟩, nofun⟩
      · simp only [unpack, loaded, Outcome.ret_bind, result, stored, ne_eq, whole,
          not_false_eq_true, if_true, Outcome.pure_eq]
      · exact ⟨inside, header, headerPos, length ▸ size, blockPos⟩

/-- A block is read as it is of what the state stands for. -/
theorem readBlock_run (bounded : lib.Bounded) (sound : heap.Sound) (held : lz4.Held)
    (enough : lz4HeaderSize < rounds) :
    ∃ ok lz4', lz4.readBlock lib heap rounds = .ret (ok, lz4') ∧ lz4'.Held ∧ lz4.Keeps lz4' ∧
      (ok = true → lz4ReadBlock lib lz4.view = some lz4'.view) := by
  obtain ⟨ok, lz4₁, read, held₁, keeps₁, same₁⟩ := readHeader_run held enough
  cases ok with
  | false =>
    refine ⟨false, lz4₁, ?_, held₁, keeps₁, nofun⟩
    rw [readBlock, read]
    rfl
  | true =>
    have header := same₁ rfl
    have go : lz4.readBlock lib heap rounds =
        if lz4₁.blockSize ≤ 0 then .ret (false, lz4₁)
        else if lz4₁.decompBlockSize < 0 then .ret (false, lz4₁)
        else if lz4₁.blockSize.toNat > sizeSub lz4₁.data.length lz4₁.pos then .ret (false, lz4₁)
        else
          match lz4₁.reserve heap with
          | none => .ret (false, lz4₁)
          | some lz4 =>
            unpack lib heap { lz4 with size := lz4.decompBlockSize.toNat, blockPos := 0 } := by
      rw [readBlock, read]
      rfl
    have fail {run : Run (Bool × Lz4Userdata)} (eq : run = .ret (false, lz4₁)) :
        ∃ ok lz4', run = .ret (ok, lz4') ∧ lz4'.Held ∧ lz4.Keeps lz4' ∧
          (ok = true → lz4ReadBlock lib lz4.view = some lz4'.view) :=
      ⟨false, lz4₁, eq, held₁, keeps₁, nofun⟩
    rw [go, sizeSub_of_le held₁.inside]
    split_ifs with empty negative beyond
    · exact fail rfl
    · exact fail rfl
    · exact fail rfl
    · cases reserved : lz4₁.reserve heap with
      | none => exact fail rfl
      | some lz4₂ =>
        obtain ⟨held₂, room, more, rfl⟩ := reserve_held sound held₁ reserved
        have ready : Held { lz4₁ with
            block := lz4₁.block ++ more
            size := lz4₁.decompBlockSize.toNat
            blockPos := 0 } :=
          ⟨held₂.inside, held₂.header, held₂.headerPos, room, Nat.zero_le _⟩
        obtain ⟨ok, lz4', unpacked, held', keeps', same'⟩ :=
          unpack_run bounded sound ready (Nat.le_of_not_gt beyond)
        obtain ⟨data, destSize, progress⟩ := keeps'
        refine ⟨ok, lz4', unpacked, held', ⟨data.trans keeps₁.1, destSize.trans keeps₁.2.1,
          progress.trans keeps₁.2.2⟩, ?_⟩
        intro good
        obtain ⟨out, unpacks, whole, viewed⟩ := same' good
        unfold lz4ReadBlock
        rw [header, viewed]
        dsimp only [view] at unpacks whole ⊢
        rw [if_neg empty, if_neg negative, if_neg beyond, unpacks]
        dsimp only
        rw [if_neg (not_not.mpr whole)]

/-! ## Calls -/

theorem Keeps.trans {lz4' lz4'' : Lz4Userdata} (h : lz4.Keeps lz4') (h' : lz4'.Keeps lz4'') :
    lz4.Keeps lz4'' :=
  ⟨h'.1.trans h.1, h'.2.1.trans h.2.1, h'.2.2.trans h.2.2⟩

/-- A block that there is something left of, or the next. -/
theorem nextBlock_run (bounded : lib.Bounded) (sound : heap.Sound) (held : lz4.Held)
    (enough : lz4HeaderSize < rounds) :
    ∃ ok lz4', lz4.nextBlock lib heap rounds = .ret (ok, lz4') ∧ lz4'.Held ∧ lz4.Keeps lz4' ∧
      (ok = true → (if lz4.view.avail = 0 then lz4ReadBlock lib lz4.view else some lz4.view) =
        some lz4'.view) := by
  unfold nextBlock
  by_cases used : lz4.avail = 0
  · rw [if_pos used, if_pos (held.avail_eq ▸ used)]
    exact readBlock_run bounded sound held enough
  · rw [if_neg used, if_neg (held.avail_eq ▸ used)]
    exact ⟨true, lz4, rfl, held, ⟨rfl, rfl, rfl⟩, fun _ => rfl⟩

/-- A copy out of a block, with `front` in the buffer already. -/
structure Copied (lib : Lz4Lib) (lz4 lz4' : Lz4Userdata) (need take : Nat) (chunk : Bytes) :
    Prop where
  some : 0 < take
  within : take ≤ need
  length : chunk.length = take
  held : lz4'.Held
  keeps : lz4.Keeps lz4'
  fills : ∀ last out, lz4Fill lib lz4'.view (need - take) = Option.some (last, out) →
    lz4Fill lib lz4.view need = Option.some (last, chunk ++ out)

theorem copyStep_run {front rest : Bytes} {need : Nat} (bounded : lib.Bounded)
    (sound : heap.Sound) (held : lz4.Held) (enough : lz4HeaderSize < rounds)
    (room : need ≤ rest.length) (more : need ≠ 0) :
    (∃ lz4', copyStep lib heap rounds ⟨lz4, front ++ rest, front.length, need⟩ =
        .ret (.inr (false, ⟨lz4', front ++ rest, front.length, need⟩)) ∧
      lz4'.Held ∧ lz4.Keeps lz4') ∨
    ∃ lz4' take chunk, copyStep lib heap rounds ⟨lz4, front ++ rest, front.length, need⟩ =
        .ret (.inl ⟨lz4', front ++ chunk ++ rest.drop take, front.length + take, need - take⟩) ∧
      Copied lib lz4 lz4' need take chunk := by
  obtain ⟨ok, lz4₁, next, held₁, keeps, same⟩ := nextBlock_run bounded sound held enough
  have step : copyStep lib heap rounds ⟨lz4, front ++ rest, front.length, need⟩ =
      if !ok then .ret (.inr (false, ⟨lz4₁, front ++ rest, front.length, need⟩))
      else if lz4₁.avail = 0 then .ret (.inr (false, ⟨lz4₁, front ++ rest, front.length, need⟩))
      else load (lz4₁.block.take lz4₁.size) lz4₁.blockPos
            (if lz4₁.avail < need then lz4₁.avail else need) >>= fun chunk =>
          store (front ++ rest) front.length chunk >>= fun buf =>
            .ret (.inl ⟨{ lz4₁ with blockPos :=
                lz4₁.blockPos + if lz4₁.avail < need then lz4₁.avail else need },
              buf, front.length + (if lz4₁.avail < need then lz4₁.avail else need),
              need - if lz4₁.avail < need then lz4₁.avail else need⟩) := by
    rw [copyStep, if_neg more]
    dsimp only
    rw [next]
    rfl
  cases ok with
  | false => exact .inl ⟨lz4₁, step, held₁, keeps⟩
  | true =>
    by_cases empty : lz4₁.avail = 0
    · rw [if_neg (by decide), if_pos empty] at step
      exact .inl ⟨lz4₁, step, held₁, keeps⟩
    · rw [if_neg (by decide), if_neg empty] at step
      have left := held₁.avail_eq
      generalize count : (if lz4₁.avail < need then lz4₁.avail else need) = take at step
      have bounds : 0 < take ∧ take ≤ need ∧ take ≤ lz4₁.avail := by split at count <;> omega
      have decoded : lz4₁.blockPos + take ≤ (lz4₁.block.take lz4₁.size).length := by
        unfold Lz4State.avail at left
        change lz4₁.avail = (lz4₁.block.take lz4₁.size).length - lz4₁.blockPos at left
        omega
      have loaded := load_of_le decoded
      have length : (((lz4₁.block.take lz4₁.size).drop lz4₁.blockPos).take take).length = take := by
        rw [List.length_take, List.length_drop]
        omega
      have stored := store_append front rest
        (((lz4₁.block.take lz4₁.size).drop lz4₁.blockPos).take take) (by omega)
      rw [loaded, Outcome.ret_bind, stored, Outcome.ret_bind, length] at step
      have fits := List.length_take_le lz4₁.size lz4₁.block
      refine .inr ⟨_, take, _, step, bounds.1, bounds.2.1, length, ⟨held₁.inside, held₁.header,
        held₁.headerPos, held₁.size, ?_⟩, keeps, ?_⟩
      · change lz4₁.blockPos + take ≤ lz4₁.size
        omega
      · intro last out fill
        unfold lz4Fill
        rw [if_neg more, same rfl]
        dsimp only
        rw [← left, if_neg empty, count]
        have fill : lz4Fill lib (lz4₁.view.advance take) (need - take) = some (last, out) := fill
        rw [fill]
        rfl

/-- The loop fills the buffer as it is filled from what the state stands for. -/
theorem copy_run (front rest : Bytes) {need fuel : Nat} (bounded : lib.Bounded)
    (sound : heap.Sound) (held : lz4.Held) (enough : lz4HeaderSize < rounds)
    (room : need ≤ rest.length) (fuelled : need < fuel) :
    ∃ ok s, Outcome.loop (copyStep lib heap rounds) fuel
        ⟨lz4, front ++ rest, front.length, need⟩ = .ret (ok, s) ∧
      s.lz4.Held ∧ lz4.Keeps s.lz4 ∧ s.buf.length = (front ++ rest).length ∧
      (ok = true → ∃ out, lz4Fill lib lz4.view need = some (s.lz4.view, out) ∧
        s.buf = front ++ out ++ rest.drop need) := by
  induction fuel generalizing lz4 front rest need with
  | zero => cases fuelled
  | succ fuel ih =>
    by_cases done : need = 0
    · subst done
      refine ⟨true, _, Outcome.loop_of_exit rfl fuel, held, ⟨rfl, rfl, rfl⟩, rfl, ?_⟩
      intro _
      refine ⟨[], ?_, ?_⟩
      · unfold lz4Fill
        rfl
      · rw [List.append_nil]
        rfl
    · obtain ⟨lz4', step, held', keeps⟩ | ⟨lz4', take, chunk, step, copied⟩ :=
        copyStep_run bounded sound held enough room done
      · exact ⟨false, _, Outcome.loop_of_exit step fuel, held', keeps, rfl, nofun⟩
      · obtain ⟨some, within, length, held', keeps, fills⟩ := copied
        have lengths : (front ++ chunk).length = front.length + take := by
          rw [List.length_append, length]
        rw [Outcome.loop_of_continue step, ← lengths]
        have room' : need - take ≤ (rest.drop take).length := by
          rw [List.length_drop]
          omega
        obtain ⟨ok, s, run, held'', keeps', size, same⟩ :=
          ih (front ++ chunk) (rest.drop take) held' room' (by omega)
        refine ⟨ok, s, run, held'', keeps.trans keeps', ?_, ?_⟩
        · rw [size, List.length_append, lengths, List.length_drop, List.length_append]
          omega
        · intro good
          obtain ⟨out, fill, buf⟩ := same good
          refine ⟨chunk ++ out, fills _ _ fill, ?_⟩
          rw [buf, List.drop_drop, Nat.add_sub_cancel' within, List.append_assoc front]

/-- How much of a buffer is written in one call. -/
def wanted (lz4 : Lz4Userdata) (buf : Bytes) : Nat :=
  if buf.length < sizeSub lz4.destSize lz4.progress then buf.length
  else sizeSub lz4.destSize lz4.progress

theorem wanted_le (lz4 : Lz4Userdata) (buf : Bytes) : lz4.wanted buf ≤ buf.length := by
  unfold wanted
  split <;> omega

def started (lz4 : Lz4Userdata) : Lz4Userdata := { lz4 with status := .inProgress }

/-- One call: it gives back a buffer of the size that it was given; if it
succeeds it has skipped, or written what comes next at the front. -/
theorem decomp_run (buf : Bytes) (bounded : lib.Bounded) (sound : heap.Sound) (held : lz4.Held)
    (enough : lz4HeaderSize < rounds) (fuelled : buf.length < rounds) (offsetHint : Nat) :
    ∃ ok r, lz4.decomp lib heap rounds buf offsetHint = .ret (ok, r) ∧ r.state.Held ∧
      r.state.data = lz4.data ∧ r.state.destSize = lz4.destSize ∧ r.buf.length = buf.length ∧
      (ok = true → (r.offset = none ∧ r.state = lz4.started) ∨
        ∃ (lz4' : Lz4Userdata) (out : Bytes),
          lz4Fill lib lz4.started.view (lz4.wanted buf) = some (lz4'.view, out) ∧
          r.offset = some lz4.progress ∧ r.buf = out ++ buf.drop (lz4.wanted buf) ∧
          r.state.view = { lz4'.view with
            progress := r.state.progress
            status := r.state.status } ∧
          r.state.progress = (lz4.progress + buf.length) % 2 ^ 64) := by
  have startedHeld : lz4.started.Held :=
    ⟨held.inside, held.header, held.headerPos, held.size, held.blockPos⟩
  by_cases behind : offsetHint < lz4.progress
  · exact ⟨true, ⟨none, buf, lz4.started⟩, if_pos behind, startedHeld, rfl, rfl, rfl,
      fun _ => .inl ⟨rfl, rfl⟩⟩
  · have start : lz4.decomp lib heap rounds buf offsetHint =
        Outcome.loop (copyStep lib heap rounds) rounds
            ⟨lz4.started, [] ++ buf, ([] : Bytes).length, lz4.wanted buf⟩ >>= fun x =>
          if !x.1 then .ret (false, ⟨none, x.2.buf, x.2.lz4⟩)
          else .ret (true, ⟨some x.2.lz4.progress, x.2.buf, { x.2.lz4 with
            progress := (x.2.lz4.progress + x.2.buf.length) % 2 ^ 64
            status := if (x.2.lz4.progress + x.2.buf.length) % 2 ^ 64 ≥ x.2.lz4.destSize then .done
              else .inProgress }⟩) := if_neg behind
    have le := lz4.wanted_le buf
    obtain ⟨ok, s, run, held', ⟨data, destSize, progress⟩, size, same⟩ :=
      copy_run [] buf bounded sound startedHeld enough le (Nat.lt_of_le_of_lt le fuelled)
    have progress : s.lz4.progress = lz4.progress := progress
    rw [run, Outcome.ret_bind] at start
    cases ok with
    | false => exact ⟨false, _, start, held', data, destSize, size, nofun⟩
    | true =>
      obtain ⟨out, fill, filled⟩ := same rfl
      refine ⟨true, _, start, ⟨held'.inside, held'.header, held'.headerPos, held'.size,
        held'.blockPos⟩, data, destSize, size, fun _ => .inr ⟨s.lz4, out, fill, ?_, ?_, rfl, ?_⟩⟩
      · exact congrArg some progress
      · exact filled
      · change (s.lz4.progress + s.buf.length) % 2 ^ 64 = _
        rw [progress, size]
        rfl

/-- What calls that succeeded have put out: all that was delivered, until the
declared size is reached, and from then on the same up to that size. -/
def Given (lib : Lz4Lib) (lz4 : Lz4Userdata) (outs : Bytes) : Prop :=
  ∃ delivered, lz4.view.Delivered lib delivered ∧
    ((outs.length < lz4.destSize ∧ lz4.progress = outs.length ∧ delivered = outs) ∨
      (lz4.destSize ≤ outs.length ∧ lz4.destSize ≤ delivered.length ∧
        outs.take lz4.destSize = delivered.take lz4.destSize))

theorem Given.prefix_frames {outs : Bytes} (given : lz4.Given lib outs) :
    ∃ front plain, front <+: lz4.data ∧ Lz4Frames lib front plain ∧
      outs.take lz4.destSize <+: plain := by
  obtain ⟨delivered, delivers, cut⟩ := given
  obtain ⟨front, plain, first, frames, comes⟩ := delivers.prefix_frames
  refine ⟨front, plain, first, frames, ?_⟩
  obtain ⟨-, -, rfl⟩ | ⟨-, -, same⟩ := cut
  · exact (List.take_prefix _ _).trans comes
  · rw [same]
    exact (List.take_prefix _ _).trans comes

/-- A call that succeeds goes on from there. -/
theorem Given.decomp {buf outs : Bytes} {r : DecompResult Lz4Userdata} {offsetHint : Nat}
    (given : lz4.Given lib outs) (fits : lz4.destSize < 2 ^ 64) (bounded : lib.Bounded)
    (sound : heap.Sound) (held : lz4.Held) (enough : lz4HeaderSize < rounds)
    (fuelled : buf.length < rounds)
    (run : lz4.decomp lib heap rounds buf offsetHint = .ret (true, r)) :
    r.state.Given lib (outs ++ r.output) := by
  obtain ⟨ok, r', eq, -, data, destSize, -, done⟩ :=
    decomp_run buf bounded sound held enough fuelled offsetHint
  cases run.symm.trans eq
  obtain ⟨delivered, ⟨inside, frames, header⟩, cut⟩ := given
  obtain ⟨none, state⟩ | ⟨lz4', out, fill, offset, filled, viewed, progress⟩ := done rfl
  · have nothing : r.output = [] := if_neg (by rw [none]; decide)
    rw [nothing, List.append_nil, state]
    exact ⟨delivered, ⟨inside, frames, header⟩, cut⟩
  · have all : r.output = out ++ buf.drop (lz4.wanted buf) :=
      (if_pos (by rw [offset]; rfl)).trans filled
    have before : lz4.started.view.Delivered lib delivered := ⟨inside, frames, header⟩
    obtain ⟨⟨inside', frames', header'⟩, length, -⟩ := lz4Fill_delivered before fill
    have delivers : r.state.view.Delivered lib (delivered ++ out) := by
      rw [viewed]
      exact ⟨inside', frames', header'⟩
    refine ⟨delivered ++ out, delivers, ?_⟩
    rw [all, destSize, progress]
    obtain ⟨short, position, rfl⟩ | ⟨reached, reached', same⟩ := cut
    · have remaining : sizeSub lz4.destSize lz4.progress = lz4.destSize - delivered.length := by
        rw [position]
        exact sizeSub_of_le (Nat.le_of_lt short)
      unfold wanted at length ⊢
      rw [remaining] at length ⊢
      by_cases part : buf.length < lz4.destSize - delivered.length
      · rw [if_pos part] at length ⊢
        rw [List.drop_length, List.append_nil, List.length_append, position]
        exact .inl ⟨by omega, by rw [length]; exact Nat.mod_eq_of_lt (by omega), rfl⟩
      · rw [if_neg part] at length ⊢
        refine .inr ⟨?_, ?_, ?_⟩
        · rw [List.length_append, List.length_append]
          omega
        · rw [List.length_append]
          omega
        · rw [← List.append_assoc, List.take_append_of_le_length]
          rw [List.length_append]
          omega
    · refine .inr ⟨?_, ?_, ?_⟩
      · rw [List.length_append]
        omega
      · rw [List.length_append]
        omega
      · rw [List.take_append_of_le_length reached, List.take_append_of_le_length reached', same]

/-- The first header is read when the decompressor is initialized. -/
theorem fresh_given (lib : Lz4Lib) (data : Bytes) (destSize : Nat) (enough : lz4HeaderSize < rounds) :
    ∃ ok lz4, (fresh data destSize).readHeader rounds = .ret (ok, lz4) ∧ lz4.Held ∧
      lz4.data = data ∧ lz4.destSize = destSize ∧ (ok = true → lz4.Given lib []) := by
  have held : (fresh data destSize).Held :=
    ⟨Nat.zero_le _, List.length_replicate, Nat.zero_le _, Nat.le_refl _, Nat.le_refl _⟩
  obtain ⟨ok, lz4, run, held', ⟨same, size, progress⟩, read⟩ := readHeader_run held enough
  refine ⟨ok, lz4, run, held', same, size, ?_⟩
  intro good
  obtain ⟨delivers, -⟩ := @lz4Init_delivered lib _ _ _ (read good)
  refine ⟨[], delivers, ?_⟩
  by_cases empty : lz4.destSize = 0
  · rw [empty]
    exact .inr ⟨Nat.le_refl _, Nat.le_refl _, rfl⟩
  · exact .inl ⟨Nat.pos_of_ne_zero empty, progress, rfl⟩

end Lz4Userdata

/-! ## Any calls -/

variable {lib : Lz4Lib} {rounds : Nat}

/-- Calls that the loops have enough rounds for. -/
structure Lz4Calls (rounds : Nat) (calls : List Lz4Call) : Prop where
  header : lz4HeaderSize < rounds
  buf : ∀ call ∈ calls, call.buf.length < rounds
  heap : ∀ call ∈ calls, call.heap.Sound

theorem Lz4Calls.tail {call : Lz4Call} {calls : List Lz4Call}
    (h : Lz4Calls rounds (call :: calls)) : Lz4Calls rounds calls where
  header := h.header
  buf c mem := h.buf c (List.mem_cons_of_mem _ mem)
  heap c mem := h.heap c (List.mem_cons_of_mem _ mem)

/-- The bytes that answers put out, one after the other. -/
def lz4Output (answers : List (Bool × DecompResult Lz4Userdata)) : Bytes :=
  answers.flatMap fun answer => answer.2.output

/-- The first answers that are all good. -/
def GoodAnswers (good answers : List (Bool × DecompResult Lz4Userdata)) : Prop :=
  good <+: answers ∧ ∀ answer ∈ good, answer.1 = true

/-- All calls return; while they succeed, what they put out comes from frames. -/
theorem lz4Calls_run {lz4 : Lz4Userdata} {calls : List Lz4Call} (bounded : lib.Bounded)
    (fits : lz4.destSize < 2 ^ 64) (h : Lz4Calls rounds calls) (held : lz4.Held) :
    ∃ answers, lz4Calls lib rounds lz4 calls = .ret answers ∧
      ∀ outs, lz4.Given lib outs → ∀ good, GoodAnswers good answers →
        ∃ front plain, front <+: lz4.data ∧ Lz4Frames lib front plain ∧
          (outs ++ lz4Output good).take lz4.destSize <+: plain := by
  induction calls generalizing lz4 with
  | nil =>
    refine ⟨[], rfl, ?_⟩
    rintro outs given good ⟨first, -⟩
    cases List.prefix_nil.mp first
    have := given.prefix_frames
    rwa [lz4Output, List.flatMap_nil, List.append_nil]
  | cons call calls ih =>
    have sound := h.heap call List.mem_cons_self
    have fuelled := h.buf call List.mem_cons_self
    obtain ⟨ok, r, run, held', data, destSize, -, -⟩ := Lz4Userdata.decomp_run call.buf
      bounded sound held h.header fuelled call.offsetHint
    obtain ⟨answers, runs, comes⟩ := ih (destSize ▸ fits) h.tail held'
    refine ⟨(ok, r) :: answers, ?_, ?_⟩
    · rw [lz4Calls, run, Outcome.ret_bind, runs]
      rfl
    · rintro outs given good ⟨first, all⟩
      cases good with
      | nil =>
        have := given.prefix_frames
        rwa [lz4Output, List.flatMap_nil, List.append_nil]
      | cons answer good =>
        obtain ⟨rfl, rest⟩ := List.cons_prefix_cons.mp first
        have success : ok = true := all _ List.mem_cons_self
        subst success
        have given' := given.decomp fits bounded sound held h.header fuelled run
        have whole := comes _ given' good
          ⟨rest, fun answer mem => all answer (List.mem_cons_of_mem _ mem)⟩
        rw [data, destSize, List.append_assoc] at whole
        exact whole

/-- For any input, declared size and buffers: every call returns, with every
access inside the input, the block or the buffer; and while the calls succeed,
what they put out is, up to the declared size, a first part of what the frames at
the front of the input stand for. -/
theorem lz4_untrusted (bounded : lib.Bounded) (data : Bytes) (destSize : UInt64)
    (calls : List Lz4Call) (h : Lz4Calls rounds calls) :
    ∃ answers, lz4Session lib rounds data destSize.toNat calls = .ret answers ∧
      ∀ good, GoodAnswers good answers → ∃ front plain, front <+: data ∧ Lz4Frames lib front plain ∧
        (lz4Output good).take destSize.toNat <+: plain := by
  obtain ⟨ok, lz4, run, held, same, size, given⟩ :=
    Lz4Userdata.fresh_given lib data destSize.toNat h.header
  have fits : lz4.destSize < 2 ^ 64 := size ▸ destSize.toNat_lt
  cases ok with
  | false =>
    refine ⟨[], ?_, ?_⟩
    · rw [lz4Session, run]
      rfl
    · rintro good ⟨first, -⟩
      cases List.prefix_nil.mp first
      exact ⟨[], [], List.nil_prefix, .nil, List.take_prefix _ _⟩
  | true =>
    obtain ⟨answers, runs, comes⟩ := lz4Calls_run bounded fits h held
    refine ⟨answers, ?_, ?_⟩
    · rw [lz4Session, run]
      exact runs
    · intro good firsts
      have := comes [] (given rfl) good firsts
      rwa [same, size, List.nil_append] at this

section Frame

/-- A library that only copies. -/
def copyingLz4 : Lz4Lib where
  compressDefault plain _ := some plain
  decompressSafe packed capacity := if packed.length ≤ capacity then some packed else none

def zeroHeap : Lz4Heap where
  grow _ n := some (List.replicate n 0)
  spoil _ _ := []

def twoCalls : List Lz4Call := [⟨[0, 0], 0, zeroHeap⟩, ⟨[0, 0], 2, zeroHeap⟩]

theorem copyingLz4_bounded : copyingLz4.Bounded := by
  intro packed capacity out unpacks
  change (if _ then _ else _) = _ at unpacks
  split at unpacks
  · cases unpacks
    assumption
  · cases unpacks

theorem twoCalls_sound : Lz4Calls 16 twoCalls where
  header := by decide
  buf := by decide
  heap call mem := by
    have heap : call.heap = zeroHeap := by
      rcases List.mem_cons.mp mem with rfl | mem
      · rfl
      · cases List.mem_singleton.mp mem
        rfl
    rw [heap]
    constructor
    · intro pos n bytes grown
      cases grown
      exact List.length_replicate
    · intro packed capacity
      exact Nat.zero_le _

/-- A frame of three bytes and half a header, in two calls. -/
theorem lz4_untrusted_frame :
    ∃ answers, lz4Session copyingLz4 16 (lz4Frame [1, 2, 3] 3 ++ [0, 0, 0, 9])
        (3 : UInt64).toNat twoCalls = .ret answers ∧
      ∀ good, GoodAnswers good answers → ∃ front plain,
        front <+: lz4Frame [1, 2, 3] 3 ++ [0, 0, 0, 9] ∧ Lz4Frames copyingLz4 front plain ∧
          (lz4Output good).take (3 : UInt64).toNat <+: plain :=
  lz4_untrusted copyingLz4_bounded _ 3 twoCalls twoCalls_sound

end Frame

end LibAsdf
