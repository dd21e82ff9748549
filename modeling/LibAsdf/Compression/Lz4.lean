import LibAsdf.Base.Endian
import LibAsdf.Block.Record

/-!
# LZ4 blocks

The framing that the repository puts around the LZ4 library: chunks of 4 MB,
each with its two sizes before it.

* `DecompResult`: what a `decomp` callback gives;
* `Lz4Lib`: what is used of the library;
* `lz4Comp`, `lz4Init`, `lz4Decomp`: the compressor's callbacks;
* `Decodes`: a sequence of frames and the bytes it stands for;
* `lz4Fill_pending`: what the reading loop gives;
* `lz4Comp_decodes`: what was compressed is such a sequence.
-/

namespace LibAsdf

open Endian (beBytes leNat leBytes)

/-- `asdf_compressor_status_t`. -/
inductive CompressorStatus where
  | uninitialized
  | initialized
  | inProgress
  | done
  deriving DecidableEq, Repr

/-- What one call of `decomp` leaves: `offset_out`, if it is set, the buffer, and
the compressor's state. -/
structure DecompResult (δ : Type) where
  offset : Option Nat
  buf : Bytes
  state : δ
  deriving DecidableEq, Repr

/-! ## The library -/

/-- `LZ4_compress_default`, `none` for a result that is not positive, and
`LZ4_decompress_safe`, `none` for a negative one. -/
structure Lz4Lib where
  compressDefault : Bytes → Nat → Option Bytes
  decompressSafe : Bytes → Nat → Option Bytes

/-- `LZ4_compressBound`. -/
def lz4CompressBound (size : Nat) : Nat := size + size / 255 + 16

/-- What is compressed into a buffer of the bound's size is decompressed again. -/
def Lz4Lib.Inverts (lib : Lz4Lib) : Prop :=
  ∀ plain : Bytes, plain ≠ [] → plain.length ≤ 0x7E000000 →
    ∃ packed, lib.compressDefault plain (lz4CompressBound plain.length) = some packed ∧
      packed ≠ [] ∧ packed.length ≤ lz4CompressBound plain.length ∧
      lib.decompressSafe packed plain.length = some plain

/-! ## Compression -/

def lz4BlockSize : Nat := 2 ^ 22

def lz4HeaderSize : Nat := 8

/-- One chunk in the output. -/
def lz4Frame (packed : Bytes) (chunkSize : Nat) : Bytes :=
  beBytes 4 (packed.length + 4) ++ leBytes 4 chunkSize ++ packed

/-- The first pass: the worst-case size of the output. -/
def lz4Capacity (size : Nat) : Nat :=
  if size = 0 then 0
  else
    let chunkSize := if size > lz4BlockSize then lz4BlockSize else size
    4 + 4 + lz4CompressBound chunkSize + lz4Capacity (size - chunkSize)
termination_by size
decreasing_by
  have : 0 < lz4BlockSize := by decide
  split <;> omega

/-- The second pass. -/
def lz4CompLoop (lib : Lz4Lib) (buf : Bytes) : Option Bytes :=
  if buf = [] then some []
  else
    let chunk := buf.take lz4BlockSize
    match lib.compressDefault chunk (lz4CompressBound chunk.length) with
    | none => none
    | some packed =>
      (lz4CompLoop lib (buf.drop lz4BlockSize)).map (lz4Frame packed chunk.length ++ ·)
termination_by buf.length
decreasing_by
  have : 0 < lz4BlockSize := by decide
  have : 0 < buf.length := List.length_pos_of_ne_nil (by assumption)
  rw [List.length_drop]
  omega

/-- `asdf_compressor_lz4_comp`. -/
def lz4Comp (lib : Lz4Lib) (buf : Bytes) : Option Bytes :=
  if lz4Capacity buf.length > offMax then none else lz4CompLoop lib buf

/-! ## Decompression -/

/-- `asdf_compressor_lz4_userdata_t`. The header is what has been read of it. -/
structure Lz4State where
  status : CompressorStatus
  data : Bytes
  destSize : Nat
  pos : Nat
  progress : Nat
  header : Bytes
  blockSize : Int
  decompBlockSize : Int
  block : Bytes
  blockPos : Nat
  deriving DecidableEq, Repr

/-- The sizes in a header, as `int32_t`; the first counts four bytes of the header. -/
def blockSizeOf (header : Bytes) : Int :=
  Int.bmod ((Endian.beNat (header.take 4) : Int) - 4) (2 ^ 32)

@[irreducible]
def decompBlockSizeOf (header : Bytes) : Int := Int.bmod (leNat (header.drop 4)) (2 ^ 32)

/-- `asdf_compressor_lz4_read_header`. -/
def lz4ReadHeader (lz4 : Lz4State) : Option Lz4State :=
  if lz4.header.length = lz4HeaderSize then some lz4
  else
    let more := (lz4.data.drop lz4.pos).take (lz4HeaderSize - lz4.header.length)
    let header := lz4.header ++ more
    if header.length < lz4HeaderSize then none
    else some { lz4 with
      header := header
      pos := lz4.pos + more.length
      blockSize := blockSizeOf header
      decompBlockSize := decompBlockSizeOf header }

/-- The state before the first header is read. -/
def Lz4State.fresh (data : Bytes) (destSize : Nat) : Lz4State where
  status := .initialized
  data := data
  destSize := destSize
  pos := 0
  progress := 0
  header := []
  blockSize := 0
  decompBlockSize := 0
  block := []
  blockPos := 0

/-- `asdf_compressor_lz4_init`. -/
def lz4Init (data : Bytes) (destSize : Nat) : Option Lz4State :=
  lz4ReadHeader (.fresh data destSize)

/-- `asdf_compresser_lz4_read_block`. -/
def lz4ReadBlock (lib : Lz4Lib) (lz4 : Lz4State) : Option Lz4State :=
  match lz4ReadHeader lz4 with
  | none => none
  | some lz4 =>
    if lz4.blockSize ≤ 0 then none
    else if lz4.decompBlockSize < 0 then none
    else if lz4.blockSize.toNat > lz4.data.length - lz4.pos then none
    else
      match lib.decompressSafe ((lz4.data.drop lz4.pos).take lz4.blockSize.toNat)
          lz4.decompBlockSize.toNat with
      | none => none
      | some block =>
        if block.length ≠ lz4.decompBlockSize.toNat then none
        else some { lz4 with
          block := block
          blockPos := 0
          pos := lz4.pos + lz4.blockSize.toNat
          header := [] }

def Lz4State.avail (lz4 : Lz4State) : Nat := lz4.block.length - lz4.blockPos

def Lz4State.advance (lz4 : Lz4State) (n : Nat) : Lz4State :=
  { lz4 with blockPos := lz4.blockPos + n }

/-- The loop of `asdf_compressor_lz4_decomp`, with the bytes it copies. -/
def lz4Fill (lib : Lz4Lib) (lz4 : Lz4State) (need : Nat) : Option (Lz4State × Bytes) :=
  if need = 0 then some (lz4, [])
  else
    match (if lz4.avail = 0 then lz4ReadBlock lib lz4 else some lz4) with
    | none => none
    | some lz4 =>
      if lz4.avail = 0 then none
      else
        let take := if lz4.avail < need then lz4.avail else need
        (lz4Fill lib (lz4.advance take) (need - take)).map fun (lz4', out) =>
          (lz4', (lz4.block.drop lz4.blockPos).take take ++ out)
termination_by need
decreasing_by split <;> omega

/-- `asdf_compressor_lz4_decomp`. -/
def lz4Decomp (lib : Lz4Lib) (lz4 : Lz4State) (buf : Bytes) (offsetHint : Nat) :
    Option (DecompResult Lz4State) :=
  let lz4 := { lz4 with status := .inProgress }
  if offsetHint < lz4.progress then some ⟨none, buf, lz4⟩
  else
    let remaining := sizeSub lz4.destSize lz4.progress
    let need := if buf.length < remaining then buf.length else remaining
    match lz4Fill lib lz4 need with
    | none => none
    | some (lz4, out) =>
      let progress := lz4.progress + buf.length
      some ⟨some lz4.progress, out ++ buf.drop out.length, { lz4 with
        progress := progress
        status := if progress ≥ lz4.destSize then .done else .inProgress }⟩

/-! ## Frames -/

/-- The first of the bytes are frames that stand for `plain`. -/
inductive Decodes (lib : Lz4Lib) : Bytes → Bytes → Prop
  | stop (rest : Bytes) : Decodes lib rest []
  | frame {packed chunk rest plain : Bytes} :
      lib.decompressSafe packed chunk.length = some chunk → packed ≠ [] → chunk ≠ [] →
      packed.length + 4 < 2 ^ 31 → chunk.length < 2 ^ 31 → Decodes lib rest plain →
      Decodes lib (lz4Frame packed chunk.length ++ rest) (chunk ++ plain)

theorem bmod_of_lt {n : Nat} (small : n < 2 ^ 31) : Int.bmod (n : Int) (2 ^ 32) = n := by
  rw [Int.bmod_def]
  omega

theorem lz4Frame_header (packed : Bytes) (chunkSize : Nat) (rest : Bytes)
    (small : packed.length + 4 < 2 ^ 31) (small' : chunkSize < 2 ^ 31) :
    let frame := lz4Frame packed chunkSize ++ rest
    lz4HeaderSize ≤ frame.length ∧ blockSizeOf (frame.take lz4HeaderSize) = packed.length ∧
      decompBlockSizeOf (frame.take lz4HeaderSize) = chunkSize ∧
      frame.drop lz4HeaderSize = packed ++ rest := by
  have first : (beBytes 4 (packed.length + 4)).length = 4 := Endian.length_beBytes _ _
  have second : (leBytes 4 chunkSize).length = 4 := Endian.length_leBytes _ _
  have front : (beBytes 4 (packed.length + 4) ++ leBytes 4 chunkSize).length = lz4HeaderSize := by
    rw [List.length_append, first, second]
    rfl
  have split : lz4Frame packed chunkSize ++ rest =
      (beBytes 4 (packed.length + 4) ++ leBytes 4 chunkSize) ++ (packed ++ rest) := by
    simp only [lz4Frame, List.append_assoc]
  intro frame
  have header : frame.take lz4HeaderSize =
      beBytes 4 (packed.length + 4) ++ leBytes 4 chunkSize :=
    (congrArg _ split).trans (List.take_left' front)
  refine ⟨?_, ?_, ?_, ?_⟩
  · change _ ≤ (lz4Frame packed chunkSize ++ rest).length
    rw [split, List.length_append, front]
    omega
  · have size : ((packed.length + 4 : Nat) : Int) - 4 = (packed.length : Nat) := by omega
    rw [header, blockSizeOf, List.take_left' first, Endian.beNat_beBytes,
      Nat.mod_eq_of_lt (by omega), size, bmod_of_lt (by omega)]
  · have size : leNat ((beBytes 4 (packed.length + 4) ++ leBytes 4 chunkSize).drop 4) =
        chunkSize := by
      rw [List.drop_left' first, Endian.leNat_leBytes, Nat.mod_eq_of_lt (by omega)]
    unfold decompBlockSizeOf
    rw [header, size]
    exact bmod_of_lt small'
  · exact (congrArg _ split).trans (List.drop_left' front)

/-! ## Reading frames -/

variable {lib : Lz4Lib} {lz4 : Lz4State}

/-- The input that has not been used, with a header that is already read. -/
def Lz4State.unread (lz4 : Lz4State) : Bytes := lz4.header ++ lz4.data.drop lz4.pos

/-- `plain` is what the unused input stands for. -/
structure Lz4State.Unread (lib : Lz4Lib) (lz4 : Lz4State) (plain : Bytes) : Prop where
  inside : lz4.pos ≤ lz4.data.length
  header : lz4.header = [] ∨ lz4.header.length = lz4HeaderSize ∧
    lz4.blockSize = blockSizeOf lz4.header ∧ lz4.decompBlockSize = decompBlockSizeOf lz4.header
  decodes : Decodes lib lz4.unread plain

theorem lz4ReadHeader_unread (inside : lz4.pos ≤ lz4.data.length)
    (header : lz4.header = [] ∨ lz4.header.length = lz4HeaderSize ∧
      lz4.blockSize = blockSizeOf lz4.header ∧ lz4.decompBlockSize = decompBlockSizeOf lz4.header)
    (enough : lz4HeaderSize ≤ lz4.unread.length) :
    ∃ pos, lz4ReadHeader lz4 = some { lz4 with
        header := lz4.unread.take lz4HeaderSize
        pos := pos
        blockSize := blockSizeOf (lz4.unread.take lz4HeaderSize)
        decompBlockSize := decompBlockSizeOf (lz4.unread.take lz4HeaderSize) } ∧
      pos ≤ lz4.data.length ∧ lz4.data.drop pos = lz4.unread.drop lz4HeaderSize := by
  rcases header with empty | ⟨full, size, decompSize⟩
  · have unread : lz4.unread = lz4.data.drop lz4.pos := by
      rw [Lz4State.unread, empty, List.nil_append]
    rw [unread] at enough ⊢
    have zero : lz4HeaderSize ≠ 0 := by decide
    have length : ((lz4.data.drop lz4.pos).take lz4HeaderSize).length = lz4HeaderSize := by
      rw [List.length_take]
      omega
    have tail : lz4HeaderSize ≤ lz4.data.length - lz4.pos := by
      rw [List.length_drop] at enough
      exact enough
    refine ⟨lz4.pos + lz4HeaderSize, ?_, by omega, List.drop_drop.symm⟩
    simp only [lz4ReadHeader, empty, List.length_nil, zero.symm, if_false, Nat.sub_zero,
      List.nil_append, length, Nat.lt_irrefl]
  · have unread : lz4.unread.take lz4HeaderSize = lz4.header := by
      rw [Lz4State.unread, ← full, List.take_left]
    refine ⟨lz4.pos, ?_, inside, ?_⟩
    · rw [lz4ReadHeader, if_pos full, unread, ← size, ← decompSize]
    · rw [Lz4State.unread, ← full, List.drop_left]

/-- The next frame. -/
theorem lz4ReadBlock_unread {plain : Bytes} (unread : lz4.Unread lib plain)
    (more : plain ≠ []) : ∃ lz4' chunk plain', lz4ReadBlock lib lz4 = some lz4' ∧
      chunk ≠ [] ∧ plain = chunk ++ plain' ∧ lz4'.Unread lib plain' ∧ lz4'.block = chunk ∧
      lz4'.blockPos = 0 ∧ lz4'.progress = lz4.progress ∧ lz4'.destSize = lz4.destSize := by
  obtain ⟨inside, header, decodes⟩ := unread
  generalize eq : lz4.unread = bytes at decodes
  cases decodes with
  | stop => exact absurd rfl more
  | @frame packed chunk rest plain unpacks held some small small' decodes =>
    obtain ⟨enough, size, decompSize, after⟩ := lz4Frame_header packed chunk.length rest small small'
    rw [← eq] at enough size decompSize after
    obtain ⟨pos, read, inside', tail⟩ := lz4ReadHeader_unread inside header enough
    rw [size, decompSize] at read
    rw [after] at tail
    have room : packed.length ≤ lz4.data.length - pos := by
      have := congrArg List.length tail
      rw [List.length_drop, List.length_append] at this
      omega
    have length : 0 < packed.length := List.length_pos_of_ne_nil held
    have positive : ¬ (packed.length : Int) ≤ 0 := by omega
    have natural : ¬ (chunk.length : Int) < 0 := by omega
    have input : (lz4.data.drop pos).take packed.length = packed := by
      rw [tail, List.take_left]
    refine ⟨{ lz4 with
      header := []
      pos := pos + packed.length
      blockSize := packed.length
      decompBlockSize := chunk.length
      block := chunk
      blockPos := 0 }, chunk, plain, ?_, some, rfl, ⟨?_, .inl rfl, ?_⟩, rfl, rfl, rfl, rfl⟩
    · simp only [lz4ReadBlock, read, positive, natural, if_false, Int.toNat_natCast,
        Nat.not_lt_of_le room, input, unpacks, ne_eq, not_true_eq_false]
    · change pos + packed.length ≤ lz4.data.length
      omega
    · have : lz4.data.drop (pos + packed.length) = rest := by
        rw [← List.drop_drop, tail, List.drop_left]
      simp only [Lz4State.unread, List.nil_append, this]
      exact decodes

/-- What is still to come: the rest of the block, and what follows it. -/
def Lz4State.Pending (lib : Lz4Lib) (lz4 : Lz4State) (pending : Bytes) : Prop :=
  ∃ plain, pending = lz4.block.drop lz4.blockPos ++ plain ∧ lz4.Unread lib plain

/-- A block with something left, after the next has been read where there is
nothing. -/
theorem lz4Ready_pending {pending : Bytes} (h : lz4.Pending lib pending) (more : pending ≠ []) :
    ∃ lz4', (if lz4.avail = 0 then lz4ReadBlock lib lz4 else some lz4) = some lz4' ∧
      lz4'.Pending lib pending ∧ lz4'.avail ≠ 0 ∧ lz4'.progress = lz4.progress ∧
      lz4'.destSize = lz4.destSize := by
  by_cases empty : lz4.avail = 0
  · obtain ⟨plain, eq, unread⟩ := h
    have used : lz4.block.drop lz4.blockPos = [] := by
      unfold Lz4State.avail at empty
      exact List.drop_eq_nil_iff.mpr (by omega)
    rw [used, List.nil_append] at eq
    subst eq
    obtain ⟨lz4', chunk, plain', read, held, rfl, unread', block, start, progress, size⟩ :=
      lz4ReadBlock_unread unread more
    rw [if_pos empty]
    refine ⟨lz4', read, ⟨plain', ?_, unread'⟩, ?_, progress, size⟩
    · rw [block, start, List.drop_zero]
    · have := List.length_pos_of_ne_nil held
      unfold Lz4State.avail
      rw [block, start]
      omega
  · rw [if_neg empty]
    exact ⟨lz4, rfl, h, empty, rfl, rfl⟩

theorem lz4Fill_pending {pending : Bytes} (need : Nat) (h : lz4.Pending lib pending)
    (enough : need ≤ pending.length) :
    ∃ lz4', lz4Fill lib lz4 need = some (lz4', pending.take need) ∧
      lz4'.Pending lib (pending.drop need) ∧ lz4'.progress = lz4.progress ∧
      lz4'.destSize = lz4.destSize := by
  induction need using Nat.strongRecOn generalizing lz4 pending with
  | ind need ih =>
    unfold lz4Fill
    by_cases none : need = 0
    · subst none
      exact ⟨lz4, if_pos rfl, h, rfl, rfl⟩
    · have more : pending ≠ [] := by
        rintro rfl
        exact none (Nat.le_zero.mp enough)
      obtain ⟨lz4₁, ready, ⟨plain, eq, unread⟩, held, progress, size⟩ := lz4Ready_pending h more
      generalize count : (if lz4₁.avail < need then lz4₁.avail else need) = take
      have bounds : 0 < take ∧ take ≤ need ∧ take ≤ lz4₁.avail := by split at count <;> omega
      have inBlock : take ≤ (lz4₁.block.drop lz4₁.blockPos).length := by
        rw [List.length_drop]
        exact bounds.2.2
      have rest : (lz4₁.advance take).Pending lib (pending.drop take) := by
        refine ⟨plain, ?_, unread.inside, unread.header, unread.decodes⟩
        rw [eq, List.drop_append_of_le_length inBlock, List.drop_drop]
        rfl
      obtain ⟨lz4', fill, pending', progress', size'⟩ := ih (need - take) (by omega) rest (by
        rw [List.length_drop]
        omega)
      rw [List.drop_drop, Nat.add_sub_cancel' bounds.2.1] at pending'
      refine ⟨lz4', ?_, pending', progress'.trans progress, size'.trans size⟩
      have bytes : (lz4₁.block.drop lz4₁.blockPos).take take ++ (pending.drop take).take (need - take) =
          pending.take need := by
        have front : (lz4₁.block.drop lz4₁.blockPos).take take = pending.take take := by
          rw [eq, List.take_append_of_le_length inBlock]
        rw [front, ← List.take_add, Nat.add_sub_cancel' bounds.2.1]
      simp only [none, if_false, ready, held, count, fill, Option.map_some, bytes]

/-- The first header is read when the decompressor is initialized. -/
theorem lz4Init_pending {data plain : Bytes} (decodes : Decodes lib data plain)
    (held : plain ≠ []) (destSize : Nat) : ∃ lz4, lz4Init data destSize = some lz4 ∧
      lz4.Pending lib plain ∧ lz4.progress = 0 ∧ lz4.destSize = destSize ∧
      lz4.status = .initialized := by
  have enough : lz4HeaderSize ≤ data.length := by
    cases decodes with
    | stop => exact absurd rfl held
    | frame unpacks some held' small small' =>
      exact (lz4Frame_header _ _ _ small small').1
  have start : (Lz4State.fresh data destSize).pos ≤ data.length := Nat.zero_le _
  obtain ⟨pos, init, inside, tail⟩ := lz4ReadHeader_unread start (.inl rfl) enough
  refine ⟨_, init, ⟨plain, rfl, inside, .inr ⟨?_, rfl, rfl⟩, ?_⟩, rfl, rfl, rfl⟩
  · change (data.take lz4HeaderSize).length = _
    rw [List.length_take]
    omega
  · change Decodes lib (data.take lz4HeaderSize ++ data.drop pos) plain
    have tail : data.drop pos = data.drop lz4HeaderSize := tail
    rw [tail, List.take_append_drop]
    exact decodes

/-- One call from where `pending` is still to come. -/
theorem lz4Decomp_pending {pending : Bytes} (h : lz4.Pending lib pending) (buf : Bytes)
    (offsetHint : Nat) (ahead : lz4.progress ≤ offsetHint) (inside : lz4.progress ≤ lz4.destSize)
    (enough : min buf.length (lz4.destSize - lz4.progress) ≤ pending.length) :
    ∃ lz4', lz4Decomp lib lz4 buf offsetHint = some ⟨some lz4.progress,
        pending.take (min buf.length (lz4.destSize - lz4.progress)) ++
          buf.drop (min buf.length (lz4.destSize - lz4.progress)), lz4'⟩ ∧
      lz4'.Pending lib (pending.drop (min buf.length (lz4.destSize - lz4.progress))) ∧
      lz4'.progress = lz4.progress + buf.length ∧ lz4'.destSize = lz4.destSize ∧
      (lz4'.status = .done ↔ lz4.destSize ≤ lz4.progress + buf.length) := by
  have count : (if buf.length < lz4.destSize - lz4.progress then buf.length
      else lz4.destSize - lz4.progress) = min buf.length (lz4.destSize - lz4.progress) := by
    split <;> omega
  have started : Lz4State.Pending lib { lz4 with status := .inProgress } pending := by
    obtain ⟨plain, eq, unread⟩ := h
    exact ⟨plain, eq, unread.inside, unread.header, unread.decodes⟩
  obtain ⟨lz4', fill, ⟨plain, eq, unread⟩, progress, size⟩ := lz4Fill_pending _ started enough
  simp only at progress size
  have written : (pending.take (min buf.length (lz4.destSize - lz4.progress))).length =
      min buf.length (lz4.destSize - lz4.progress) := by
    rw [List.length_take]
    omega
  refine ⟨{ lz4' with
    progress := lz4.progress + buf.length
    status := if lz4.progress + buf.length ≥ lz4.destSize then .done else .inProgress },
    ?_, ⟨plain, eq, unread.inside, unread.header, unread.decodes⟩, rfl, size, ?_⟩
  · simp only [lz4Decomp, Nat.not_lt_of_le ahead, if_false, sizeSub_of_le inside, count, fill,
      written, progress, size]
  · by_cases whole : lz4.progress + buf.length ≥ lz4.destSize
    · simp only [whole, if_true]
    · simp only [whole, if_false, reduceCtorEq]

/-! ## What was compressed -/

theorem lz4CompressBound_lt {size : Nat} (small : size ≤ lz4BlockSize) :
    lz4CompressBound size + 4 < 2 ^ 31 := by
  have : lz4BlockSize = 2 ^ 22 := rfl
  unfold lz4CompressBound
  omega

theorem lz4CompLoop_decodes (inverts : lib.Inverts) (buf : Bytes) :
    ∃ packed, lz4CompLoop lib buf = some packed ∧ Decodes lib packed buf := by
  induction size : buf.length using Nat.strongRecOn generalizing buf with
  | ind n ih =>
    subst size
    unfold lz4CompLoop
    by_cases empty : buf = []
    · subst empty
      exact ⟨[], if_pos rfl, .stop []⟩
    · have blockSize : lz4BlockSize = 2 ^ 22 := rfl
      have length := List.length_pos_of_ne_nil empty
      have small : (buf.take lz4BlockSize).length ≤ lz4BlockSize := List.length_take_le _ _
      have held : buf.take lz4BlockSize ≠ [] := by
        apply List.ne_nil_of_length_pos
        rw [List.length_take]
        omega
      obtain ⟨packed, compress, some, room, unpacks⟩ := inverts _ held (by omega)
      have bound := lz4CompressBound_lt small
      obtain ⟨more, rest, decodes⟩ := ih (buf.drop lz4BlockSize).length (by
        rw [List.length_drop]
        omega) _ rfl
      refine ⟨lz4Frame packed (buf.take lz4BlockSize).length ++ more, ?_, ?_⟩
      · simp only [empty, if_false, compress, rest, Option.map_some]
      · have := Decodes.frame unpacks some held (by omega) (by omega) decodes
        rwa [List.take_append_drop] at this

end LibAsdf
