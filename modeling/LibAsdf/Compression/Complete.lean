import LibAsdf.Compression.Codecs

/-!
# Streams that end too early

Whether a block that is opened eagerly has all of its bytes from the decoder.

* `StreamEnd`, `StreamFormat`: how a stream ends, and what the libraries with a stream
  promise;
* `lz4Decode`: the frames of an LZ4 block, to its end;
* `Codec.output`: the bytes that a decoder writes;
* `Codec.decode`: the bytes that the stored bytes stand for, and how they end;
* `Codec.Detects`: the stored bytes on which nothing goes unnoticed;
* `eager_complete`: on these, and on no others, a success is complete.
-/

namespace LibAsdf

/-! ## The libraries -/

/-- A stream is complete, or the input ends before it does, or there is a fault in it. -/
inductive StreamEnd where
  | complete
  | cut
  | malformed
  deriving DecidableEq, Repr

/-- What a library promises of its decompressor. An input stands for some bytes, up to
where it ends or a fault is; a fault is come upon when there is room for so many bytes,
and some libraries refuse to be called with no input at all. Otherwise there is
progress, with as much written as there is input and room for. The end code comes at
the end of a complete stream only. -/
structure StreamFormat (lib : StreamLib) where
  decode : Bytes → Bytes × StreamEnd
  faultRoom : Bytes → Nat
  stalls : Bool
  refused : ∀ input n, lib.run (lib.start input) n = none ↔
    input = [] ∧ stalls = true ∨ (decode input).2 = .malformed ∧ faultRoom input ≤ n
  written : ∀ input n ended out stream, lib.run (lib.start input) n = some (ended, out, stream) →
    out = (decode input).1.take n
  ended : ∀ input n out stream, lib.run (lib.start input) n = some (true, out, stream) →
    (decode input).2 = .complete ∧ (decode input).1.length ≤ n

structure CodecFormats (libs : CodecLibs) where
  zlib : StreamFormat libs.zlib.toStreamLib
  bzp2 : StreamFormat libs.bzp2.toStreamLib

/-- What the counter of a library's input covers of a block. -/
def counted (stored : Bytes) : Bytes := stored.take (counter32 stored.length)

/-! ## The frames of an LZ4 block -/

/-- The bytes that the next frame stands for and what is behind it, or how the input
ends. No frame is empty. -/
def lz4Next (lib : Lz4Lib) (stored : Bytes) : StreamEnd ⊕ Bytes × Bytes :=
  if stored = [] then .inl .complete
  else if stored.length < lz4HeaderSize then .inl .cut
  else
    let header := stored.take lz4HeaderSize
    let rest := stored.drop lz4HeaderSize
    if blockSizeOf header ≤ 0 ∨ decompBlockSizeOf header ≤ 0 then .inl .malformed
    else if (blockSizeOf header).toNat > rest.length then .inl .cut
    else
      match lib.decompressSafe (rest.take (blockSizeOf header).toNat)
          (decompBlockSizeOf header).toNat with
      | none => .inl .malformed
      | some chunk =>
        if chunk.length ≠ (decompBlockSizeOf header).toNat then .inl .malformed
        else .inr (chunk, rest.drop (blockSizeOf header).toNat)

theorem lz4Next_some {lib : Lz4Lib} {stored chunk rest : Bytes}
    (next : lz4Next lib stored = .inr (chunk, rest)) :
    lz4HeaderSize ≤ stored.length ∧ chunk ≠ [] ∧ ∃ packed : Bytes,
      stored.drop lz4HeaderSize = packed ++ rest ∧
      blockSizeOf (stored.take lz4HeaderSize) = packed.length ∧ 0 < packed.length ∧
      decompBlockSizeOf (stored.take lz4HeaderSize) = chunk.length ∧
      lib.decompressSafe packed chunk.length = some chunk := by
  unfold lz4Next at next
  dsimp only at next
  split_ifs at next with none short faulty beyond
  split at next
  · cases next
  · rename_i chunk' unpacks
    split_ifs at next with partly
    cases next
    have whole : chunk.length = (decompBlockSizeOf (stored.take lz4HeaderSize)).toNat :=
      not_not.mp partly
    obtain ⟨held, some⟩ := not_or.mp faulty
    have length : ((stored.drop lz4HeaderSize).take
        (blockSizeOf (stored.take lz4HeaderSize)).toNat).length =
          (blockSizeOf (stored.take lz4HeaderSize)).toNat := by
      rw [List.length_take]
      omega
    rw [← whole] at unpacks
    refine ⟨by omega, ?_, _, (List.take_append_drop _ _).symm, ?_, ?_, by omega, unpacks⟩
    · rintro rfl
      rw [List.length_nil] at whole
      omega
    · rw [length]
      omega
    · rw [length]
      omega

/-- The bytes that an LZ4 block stands for, up to where it ends or a fault is. -/
def lz4Decode (lib : Lz4Lib) (stored : Bytes) : Bytes × StreamEnd :=
  match _next : lz4Next lib stored with
  | .inl ending => ([], ending)
  | .inr (chunk, rest) => (chunk ++ (lz4Decode lib rest).1, (lz4Decode lib rest).2)
termination_by stored.length
decreasing_by
  obtain ⟨enough, -, packed, behind, -⟩ := lz4Next_some _next
  have length := congrArg List.length behind
  rw [List.length_drop, List.length_append] at length
  have size : lz4HeaderSize = 8 := rfl
  omega

section Frames

variable {lib : Lz4Lib} {stored chunk rest : Bytes}

theorem lz4Decode_end {ending : StreamEnd} (next : lz4Next lib stored = .inl ending) :
    lz4Decode lib stored = ([], ending) := by
  unfold lz4Decode
  split
  · rename_i next'
    cases next.symm.trans next'
    rfl
  · rename_i next'
    cases next.symm.trans next'

theorem lz4Decode_frame (next : lz4Next lib stored = .inr (chunk, rest)) :
    lz4Decode lib stored = (chunk ++ (lz4Decode lib rest).1, (lz4Decode lib rest).2) := by
  conv_lhs => unfold lz4Decode
  split
  · rename_i next'
    cases next.symm.trans next'
  · rename_i next'
    cases next.symm.trans next'
    rfl

end Frames

/-! ## What the decoders write -/

/-- The bytes that one call on a stream writes. -/
def streamOutput (lib : StreamLib) (stored : Bytes) (size : Nat) : Option Bytes :=
  (lib.run (lib.start (counted stored)) (counter32 size)).map (·.2.1)

/-- The bytes that one call of the LZ4 decompressor copies. -/
def lz4Output₁ (lib : Lz4Lib) (stored : Bytes) (size : Nat) : Option Bytes :=
  (lz4Init stored size).bind fun lz4 =>
    (lz4Fill lib { lz4 with status := .inProgress } size).map (·.2)

/-- The bytes that the decoder of a codec writes, from the start of the
destination, where it reports success. -/
def Codec.output (libs : CodecLibs) : Codec → Bytes → Nat → Option Bytes
  | .lz4 => lz4Output₁ libs.lz4
  | .zlib => streamOutput libs.zlib.toStreamLib
  | .bzp2 => streamOutput libs.bzp2.toStreamLib

/-- The bytes that the stored bytes stand for, and how they end. -/
def Codec.decode {libs : CodecLibs} (formats : CodecFormats libs) :
    Codec → Bytes → Bytes × StreamEnd
  | .lz4, stored => lz4Decode libs.lz4 stored
  | .zlib, stored => formats.zlib.decode (counted stored)
  | .bzp2, stored => formats.bzp2.decode (counted stored)

/-- A success is complete: all of the destination is from the decoder, and it is what
a complete stream stands for. -/
def EagerComplete {libs : CodecLibs} (formats : CodecFormats libs) (codec : Codec)
    (stored : Bytes) (size : Nat) : Prop :=
  ∀ dest, blockCompOpen libs.registry codec.field size stored = some (some dest) →
    codec.output libs stored size = some dest ∧ dest.length = size ∧
      codec.decode formats stored = (dest, .complete)

/-- The input on which nothing goes unnoticed in one call: a complete stream of just
that size, one with a fault that is come upon, or none that the library takes. -/
def StreamFormat.Detects {lib : StreamLib} (format : StreamFormat lib) (input : Bytes)
    (size : Nat) : Prop :=
  input = [] ∧ format.stalls = true ∨
    match (format.decode input).2 with
    | .complete => (format.decode input).1.length = size ∧ size < 2 ^ 32
    | .cut => False
    | .malformed => format.faultRoom input ≤ counter32 size

/-- The LZ4 blocks on which nothing goes unnoticed: those with no more bytes than are
asked for, and less in front of where they are cut off or of a fault. -/
def Lz4Detects (lib : Lz4Lib) (stored : Bytes) (size : Nat) : Prop :=
  match (lz4Decode lib stored).2 with
  | .complete => (lz4Decode lib stored).1.length ≤ size
  | .cut | .malformed => (lz4Decode lib stored).1.length < size

/-- The stored bytes on which a success is complete. -/
def Codec.Detects {libs : CodecLibs} (formats : CodecFormats libs) :
    Codec → Bytes → Nat → Prop
  | .lz4, stored, size => Lz4Detects libs.lz4 stored size
  | .zlib, stored, size => formats.zlib.Detects (counted stored) size
  | .bzp2, stored, size => formats.bzp2.Detects (counted stored) size

/-! ## LZ4 -/

section Lz4

variable {lib : Lz4Lib} {lz4 : Lz4State}

/-- The next header is unread, or it is all held. -/
structure Lz4State.Ready (lz4 : Lz4State) : Prop where
  inside : lz4.pos ≤ lz4.data.length
  header : lz4.header = [] ∨ lz4.header.length = lz4HeaderSize ∧
    lz4.blockSize = blockSizeOf lz4.header ∧ lz4.decompBlockSize = decompBlockSizeOf lz4.header

/-- What is still to come: the rest of the block, and what the unused input stands
for. -/
def Lz4State.coming (lib : Lz4Lib) (lz4 : Lz4State) : Bytes :=
  lz4.block.drop lz4.blockPos ++ (lz4Decode lib lz4.unread).1

theorem lz4ReadHeader_short (short : lz4.unread.length < lz4HeaderSize) :
    lz4ReadHeader lz4 = none := by
  unfold Lz4State.unread at short
  rw [List.length_append] at short
  unfold lz4ReadHeader
  rw [if_neg (by omega)]
  apply if_pos
  have := List.length_take_le' (lz4HeaderSize - lz4.header.length) (lz4.data.drop lz4.pos)
  rw [List.length_append]
  omega

/-- A block that is not read gives nothing. -/
theorem lz4ReadBlock_end (ready : lz4.Ready) {ending : StreamEnd}
    (next : lz4Next lib lz4.unread = .inl ending) :
    ∀ lz4', lz4ReadBlock lib lz4 = some lz4' → lz4'.avail = 0 := by
  intro lz4' read
  by_cases short : lz4.unread.length < lz4HeaderSize
  · rw [lz4ReadBlock, lz4ReadHeader_short short] at read
    cases read
  · have enough := Nat.le_of_not_lt short
    have some : lz4.unread ≠ [] := by
      intro none
      rw [none] at short
      exact short (by decide)
    obtain ⟨pos, headed, inside, tail⟩ := lz4ReadHeader_unread ready.inside ready.header enough
    have room : (lz4.unread.drop lz4HeaderSize).length = lz4.data.length - pos := by
      rw [← tail, List.length_drop]
    unfold lz4Next at next
    rw [if_neg some, if_neg short] at next
    dsimp only at next
    rw [room] at next
    unfold lz4ReadBlock at read
    rw [headed] at read
    generalize blockSizeOf (lz4.unread.take lz4HeaderSize) = blockSize at next read
    generalize decompBlockSizeOf (lz4.unread.take lz4HeaderSize) = decompBlockSize at next read
    dsimp only at read
    rw [tail] at read
    split_ifs at read with empty negative beyond
    split at read
    · cases read
    · rename_i block unpacks
      split_ifs at read with partly
      cases read
      rw [unpacks] at next
      dsimp only at next
      rw [if_neg partly, if_neg beyond] at next
      split_ifs at next with faulty
      have whole := not_not.mp partly
      change block.length - 0 = 0
      omega

/-- The next frame is read. -/
theorem lz4ReadBlock_next (ready : lz4.Ready) {chunk rest : Bytes}
    (next : lz4Next lib lz4.unread = .inr (chunk, rest)) :
    ∃ lz4', lz4ReadBlock lib lz4 = some lz4' ∧ lz4'.Ready ∧ lz4'.block = chunk ∧
      lz4'.blockPos = 0 ∧ lz4'.unread = rest := by
  obtain ⟨enough, -, packed, behind, blockSize, held, decompSize, unpacks⟩ := lz4Next_some next
  obtain ⟨pos, headed, inside, tail⟩ := lz4ReadHeader_unread ready.inside ready.header enough
  rw [behind] at tail
  rw [blockSize, decompSize] at headed
  have room : packed.length ≤ lz4.data.length - pos := by
    have length := congrArg List.length tail
    rw [List.length_drop, List.length_append] at length
    omega
  have positive : ¬ (packed.length : Int) ≤ 0 := by omega
  have natural : ¬ (chunk.length : Int) < 0 := by omega
  have input : (lz4.data.drop pos).take packed.length = packed := by
    rw [tail, List.take_left]
  refine ⟨{ lz4 with
    header := []
    pos := pos + packed.length
    blockSize := packed.length
    decompBlockSize := chunk.length
    block := chunk
    blockPos := 0 }, ?_, ⟨?_, .inl rfl⟩, rfl, rfl, ?_⟩
  · simp only [lz4ReadBlock, headed, positive, natural, if_false, Int.toNat_natCast,
      Nat.not_lt_of_le room, input, unpacks, ne_eq, not_true_eq_false]
  · change pos + packed.length ≤ lz4.data.length
    omega
  · change [] ++ lz4.data.drop (pos + packed.length) = rest
    rw [List.nil_append, ← List.drop_drop, tail, List.drop_left]

/-- The loop copies what is to come, and fails where that is too little. -/
def Lz4State.Fills (lib : Lz4Lib) (lz4 : Lz4State) (need : Nat) : Prop :=
  (lz4Fill lib lz4 need).map (·.2) =
    if need ≤ (lz4.coming lib).length then some ((lz4.coming lib).take need) else none

/-- What is copied from the block, and then the rest. -/
theorem lz4Fill_copied {count need : Nat} (most : count ≤ need) (held : count ≤ lz4.avail)
    (again : (lz4.advance count).Fills lib (need - count)) :
    ((lz4Fill lib (lz4.advance count) (need - count)).map fun r =>
        (r.1, (lz4.block.drop lz4.blockPos).take count ++ r.2)).map (·.2) =
      if need ≤ (lz4.coming lib).length then some ((lz4.coming lib).take need) else none := by
  have inBlock : count ≤ (lz4.block.drop lz4.blockPos).length := by
    rw [List.length_drop]
    exact held
  have rest : (lz4.advance count).coming lib = (lz4.coming lib).drop count := by
    unfold Lz4State.coming
    rw [List.drop_append_of_le_length inBlock, List.drop_drop]
    rfl
  have front : (lz4.block.drop lz4.blockPos).take count = (lz4.coming lib).take count := by
    unfold Lz4State.coming
    rw [List.take_append_of_le_length inBlock]
  have inside : count ≤ (lz4.coming lib).length := by
    unfold Lz4State.coming
    rw [List.length_append]
    omega
  unfold Lz4State.Fills at again
  rw [rest, List.length_drop] at again
  rw [Option.map_map, front]
  have split : ((·.2) ∘ fun (r : Lz4State × Bytes) => (r.1, (lz4.coming lib).take count ++ r.2)) =
      (fun out => (lz4.coming lib).take count ++ out) ∘ (·.2) := rfl
  refine (congrArg (Option.map · _) split).trans ?_
  rw [← Option.map_map, again]
  by_cases enough : need ≤ (lz4.coming lib).length
  · rw [if_pos enough, if_pos (by omega), Option.map_some, ← List.take_add,
      Nat.add_sub_cancel' most]
  · rw [if_neg enough, if_neg (by omega), Option.map_none]

/-- From a block with something left the loop copies. -/
theorem lz4Fill_held {need : Nat}
    (fewer : ∀ n < need, ∀ {lz4 : Lz4State}, lz4.Ready → lz4.Fills lib n)
    (ready : lz4.Ready) (held : lz4.avail ≠ 0) (some : need ≠ 0) :
    ((lz4Fill lib (lz4.advance (if lz4.avail < need then lz4.avail else need))
        (need - if lz4.avail < need then lz4.avail else need)).map fun r =>
          (r.1, (lz4.block.drop lz4.blockPos).take
            (if lz4.avail < need then lz4.avail else need) ++ r.2)).map (·.2) =
      if need ≤ (lz4.coming lib).length then Option.some ((lz4.coming lib).take need) else none := by
  generalize count : (if lz4.avail < need then lz4.avail else need) = n
  have bounds : 0 < n ∧ n ≤ need ∧ n ≤ lz4.avail := by split at count <;> omega
  exact lz4Fill_copied bounds.2.1 bounds.2.2 (fewer _ (by omega) ⟨ready.inside, ready.header⟩)

/-- Where a frame is read, what is to come is the same. -/
theorem coming_of_next (ready : lz4.Ready) {chunk rest : Bytes}
    (next : lz4Next lib lz4.unread = .inr (chunk, rest))
    (used : lz4.block.drop lz4.blockPos = []) :
    ∃ lz4', lz4ReadBlock lib lz4 = some lz4' ∧ lz4'.Ready ∧ lz4'.avail ≠ 0 ∧
      lz4'.coming lib = lz4.coming lib := by
  obtain ⟨lz4', read, ready', block, start, unread⟩ := lz4ReadBlock_next ready next
  refine ⟨lz4', read, ready', ?_, ?_⟩
  · have := List.length_pos_of_ne_nil (lz4Next_some next).2.1
    unfold Lz4State.avail
    rw [block, start]
    omega
  · unfold Lz4State.coming
    rw [used, lz4Decode_frame next, block, start, unread]
    rfl

theorem lz4Fill_coming (ready : lz4.Ready) (need : Nat) : lz4.Fills lib need := by
  induction need using Nat.strongRecOn generalizing lz4 with
  | ind need ih =>
    unfold Lz4State.Fills lz4Fill
    by_cases none : need = 0
    · subst none
      exact (if_pos (Nat.zero_le _)).symm
    · rw [if_neg none]
      by_cases used : lz4.avail = 0
      · rw [if_pos used]
        have all : lz4.block.drop lz4.blockPos = [] := by
          unfold Lz4State.avail at used
          exact List.drop_eq_nil_iff.mpr (by omega)
        cases next : lz4Next lib lz4.unread with
        | inl ending =>
          have coming : lz4.coming lib = [] := by
            rw [Lz4State.coming, all, lz4Decode_end next]
            rfl
          rw [coming, if_neg (by rw [List.length_nil]; omega)]
          cases read : lz4ReadBlock lib lz4 with
          | none => rfl
          | some lz4' =>
            dsimp only
            rw [if_pos (lz4ReadBlock_end ready next lz4' read)]
            rfl
        | inr frame =>
          obtain ⟨lz4', read, ready', held, coming⟩ := coming_of_next ready next all
          rw [read, ← coming]
          dsimp only
          rw [if_neg held]
          exact lz4Fill_held ih ready' held none
      · rw [if_neg used]
        dsimp only
        rw [if_neg used]
        exact lz4Fill_held ih ready used none

/-- What the decompressor writes is the front of what the block stands for. -/
theorem lz4Output_eq (stored : Bytes) {size : Nat} (held : 0 < size) :
    lz4Output₁ lib stored size = if size ≤ (lz4Decode lib stored).1.length then
      some ((lz4Decode lib stored).1.take size) else none := by
  have ready : (Lz4State.fresh stored size).Ready := ⟨Nat.zero_le _, .inl rfl⟩
  unfold lz4Output₁ lz4Init
  by_cases short : stored.length < lz4HeaderSize
  · have unread : (Lz4State.fresh stored size).unread.length < lz4HeaderSize := short
    rw [lz4ReadHeader_short unread]
    have nothing : (lz4Decode lib stored).1 = [] := by
      by_cases none : stored = []
      · rw [lz4Decode_end (if_pos none)]
      · have next : lz4Next lib stored = .inl .cut := (if_neg none).trans (if_pos short)
        rw [lz4Decode_end next]
    rw [nothing]
    exact (if_neg (by rw [List.length_nil]; omega)).symm
  · have enough := Nat.le_of_not_lt short
    obtain ⟨pos, headed, inside, tail⟩ := lz4ReadHeader_unread ready.inside ready.header enough
    rw [headed, Option.bind_some]
    have full : ((Lz4State.fresh stored size).unread.take lz4HeaderSize).length = lz4HeaderSize :=
      List.length_take_of_le enough
    refine (lz4Fill_coming ⟨inside, .inr ⟨full, rfl, rfl⟩⟩ size).trans ?_
    have coming : Lz4State.coming lib { Lz4State.fresh stored size with
        header := (Lz4State.fresh stored size).unread.take lz4HeaderSize
        pos := pos
        blockSize := blockSizeOf ((Lz4State.fresh stored size).unread.take lz4HeaderSize)
        decompBlockSize := decompBlockSizeOf ((Lz4State.fresh stored size).unread.take lz4HeaderSize)
        status := .inProgress } = (lz4Decode lib stored).1 := by
      change [] ++ (lz4Decode lib (stored.take lz4HeaderSize ++ stored.drop pos)).1 = _
      have tail : stored.drop pos = stored.drop lz4HeaderSize := tail
      rw [tail, List.take_append_drop, List.nil_append]
    rw [coming]

/-- What is written is all of a complete block just if nothing goes unnoticed. -/
theorem lz4Output_complete_iff {stored : Bytes} {size : Nat} (held : 0 < size) :
    (∀ out, lz4Output₁ lib stored size = some out → out.length = size ∧
      lz4Decode lib stored = (out, .complete)) ↔ Lz4Detects lib stored size := by
  rw [lz4Output_eq stored held]
  unfold Lz4Detects
  generalize lz4Decode lib stored = decoded
  obtain ⟨plain, ending⟩ := decoded
  dsimp only
  by_cases enough : size ≤ plain.length
  · rw [if_pos enough]
    constructor
    · intro complete
      obtain ⟨length, whole⟩ := complete _ rfl
      obtain ⟨all, rfl⟩ := Prod.mk.inj whole
      rw [all]
      exact Nat.le_of_eq length
    · intro detects out eq
      cases eq
      cases ending with
      | complete =>
        have same : plain.length = size := Nat.le_antisymm detects enough
        rw [← same, List.take_length]
        exact ⟨rfl, rfl⟩
      | cut => exact absurd enough (Nat.not_le_of_lt detects)
      | malformed => exact absurd enough (Nat.not_le_of_lt detects)
  · rw [if_neg enough]
    have less := Nat.lt_of_not_le enough
    refine iff_of_true (fun out eq => nomatch eq) ?_
    cases ending with
    | complete => exact Nat.le_of_lt less
    | cut => exact less
    | malformed => exact less

end Lz4

section Opening

variable {libs : CodecLibs} {codec : Codec} {stored out : Bytes} {size : Nat}

theorem lz4Init_start {lz4 : Lz4State} (init : lz4Init stored size = some lz4) :
    lz4.progress = 0 ∧ lz4.destSize = size := by
  unfold lz4Init lz4ReadHeader at init
  split at init
  · cases init
    exact ⟨rfl, rfl⟩
  · dsimp only at init
    split at init
    · cases init
    · cases init
      exact ⟨rfl, rfl⟩

theorem lz4_decomp_output (libs : CodecLibs) (stored : Bytes) (size : Nat) :
    (Codec.lz4.compressor libs).decomp stored size = (lz4Output₁ libs.lz4 stored size).map
      fun out => out ++ (zeros size).drop out.length := by
  change ((lz4Init stored size).bind fun lz4 => (lz4Decomp libs.lz4 lz4 (zeros size) 0).map (·.buf)) =
    ((lz4Init stored size).bind _).map _
  cases init : lz4Init stored size with
  | none => rfl
  | some lz4 =>
    obtain ⟨progress, destSize⟩ := lz4Init_start init
    have ahead : ¬ 0 < lz4.progress := by omega
    have all : (if (zeros size).length < sizeSub lz4.destSize lz4.progress then (zeros size).length
        else sizeSub lz4.destSize lz4.progress) = size := by
      rw [progress, destSize, length_zeros, sizeSub_of_le (Nat.zero_le _), Nat.sub_zero, ite_self]
    simp only [Option.bind_some, lz4Decomp, ahead, if_false, all]
    cases lz4Fill libs.lz4 { lz4 with status := .inProgress } size with
    | none => rfl
    | some r => rfl

/-- What is opened is what the decoder writes, over zeros. -/
theorem decomp_output (libs : CodecLibs) (codec : Codec) (stored : Bytes) (size : Nat) :
    (codec.compressor libs).decomp stored size = (codec.output libs stored size).map
      fun out => out ++ (zeros size).drop out.length := by
  have stream (lib : StreamLib) : (streamDecomp lib (streamInit lib stored) (zeros size) 0).map
      (·.buf) = (streamOutput lib stored size).map
        fun out => out ++ (zeros size).drop out.length := by
    rw [streamDecomp_eager, streamOutput, Option.map_map]
    rfl
  cases codec with
  | lz4 => exact lz4_decomp_output libs stored size
  | zlib => exact stream libs.zlib.toStreamLib
  | bzp2 => exact stream libs.bzp2.toStreamLib

theorem blockCompOpen_output (libs : CodecLibs) (codec : Codec) (stored : Bytes) (size : Nat) :
    blockCompOpen libs.registry codec.field size stored =
      if size = 0 ∨ size > offMax then none
      else (codec.output libs stored size).map
        fun out => some (out ++ (zeros size).drop out.length) := by
  have named : compressionName codec.field ≠ [] := (codec.compressor libs).named
  simp only [blockCompOpen, named, if_false, compressorGet_registry, decomp_output, Option.map_map]
  rfl

variable {formats : CodecFormats libs}

/-- It is all up to what the decoder writes. -/
theorem eagerComplete_iff_output : EagerComplete formats codec stored size ↔
    size = 0 ∨ size > offMax ∨ ∀ out, codec.output libs stored size = some out →
      out.length = size ∧ codec.decode formats stored = (out, .complete) := by
  unfold EagerComplete
  rw [blockCompOpen_output]
  constructor
  · intro complete
    by_cases refused : size = 0 ∨ size > offMax
    · exact or_assoc.mp (.inl refused)
    · refine .inr (.inr ?_)
      intro out writes
      rw [if_neg refused, writes] at complete
      obtain ⟨same, length, whole⟩ := complete _ rfl
      have same := Option.some.inj same
      rw [← same] at length whole
      exact ⟨length, whole⟩
  · intro whole dest opened
    split at opened
    · cases opened
    · rename_i sized
      obtain ⟨out, writes, eq⟩ := Option.map_eq_some_iff.mp opened
      have complete := (whole.resolve_left fun h => sized (.inl h)).resolve_left
        fun h => sized (.inr h)
      obtain ⟨length, whole⟩ := complete out writes
      rw [List.drop_of_length_le (by rw [length_zeros, length]), List.append_nil] at eq
      cases eq
      exact ⟨writes, length, whole⟩

/-- What a library writes is all of a complete stream just if nothing goes
unnoticed. -/
theorem streamOutput_complete_iff {lib : StreamLib} (format : StreamFormat lib) :
    (∀ out, streamOutput lib stored size = some out → out.length = size ∧
      format.decode (counted stored) = (out, .complete)) ↔
        format.Detects (counted stored) size := by
  unfold streamOutput StreamFormat.Detects
  have refused_iff := format.refused (counted stored) (counter32 size)
  cases run : lib.run (lib.start (counted stored)) (counter32 size) with
  | none =>
    refine iff_of_true (fun out eq => nomatch eq) ?_
    obtain stalls | ⟨malformed, room⟩ := refused_iff.mp run
    · exact .inl stalls
    · right
      rw [malformed]
      exact room
  | some r =>
    obtain ⟨ended, out, stream⟩ := r
    have written := format.written _ _ _ _ _ run
    have taken : ¬ (lib.run (lib.start (counted stored)) (counter32 size) = none) := by
      rw [run]
      exact Option.some_ne_none _
    rw [refused_iff, not_or, not_and] at taken
    obtain ⟨not_stalls, not_refused⟩ := taken
    constructor
    · intro complete
      obtain ⟨length, whole⟩ := complete out rfl
      right
      rw [whole] at written ⊢
      refine ⟨length, ?_⟩
      have room := congrArg List.length written
      rw [List.length_take, length] at room
      exact Nat.lt_of_le_of_lt (by omega) (counter32_lt size)
    · intro detects out' eq
      cases eq
      obtain stalls | detects := detects
      · exact absurd stalls.2 (not_stalls stalls.1)
      · generalize decoded : format.decode (counted stored) = decode at detects written not_refused
        obtain ⟨plain, ending⟩ := decode
        cases ending with
        | complete =>
          obtain ⟨length, small⟩ := detects
          rw [counter32_of_lt small, ← length, List.take_length] at written
          rw [written]
          exact ⟨length, rfl⟩
        | cut => cases detects
        | malformed => exact absurd ⟨rfl, detects⟩ not_refused

/-- What was opened eagerly is complete just if the size is refused, or a complete
stream of just that size is stored, or what is stored is found to be short or faulty. -/
theorem eager_complete (formats : CodecFormats libs) (codec : Codec) (stored : Bytes)
    (size : Nat) : EagerComplete formats codec stored size ↔
      size = 0 ∨ size > offMax ∨ codec.Detects formats stored size := by
  rw [eagerComplete_iff_output]
  by_cases none : size = 0
  · exact iff_of_true (.inl none) (.inl none)
  · apply or_congr_right
    apply or_congr_right
    cases codec with
    | lz4 => exact lz4Output_complete_iff (Nat.pos_of_ne_zero none)
    | zlib => exact streamOutput_complete_iff formats.zlib
    | bzp2 => exact streamOutput_complete_iff formats.bzp2

end Opening

/-! ## A truncated stream -/

section Truncated

/-- A library whose streams begin with their size. -/
def prefixedLib : StreamLib where
  Stream := Bytes
  start input := input
  run stream availOut :=
    match stream with
    | [] => none
    | size :: rest => some (decide (size.toNat ≤ rest.length ∧ size.toNat ≤ availOut),
        (rest.take size.toNat).take availOut, stream)

def prefixedFormat : StreamFormat prefixedLib where
  decode input :=
    match input with
    | [] => ([], .cut)
    | size :: rest => (rest.take size.toNat, if size.toNat ≤ rest.length then .complete else .cut)
  faultRoom _ := 0
  stalls := true
  refused input n := by
    cases input with
    | nil => exact iff_of_true rfl (.inl ⟨rfl, rfl⟩)
    | cons size rest =>
      refine iff_of_false (Option.some_ne_none _) ?_
      rintro (⟨⟨⟩, -⟩ | ⟨malformed, -⟩)
      dsimp only at malformed
      split at malformed <;> cases malformed
  written input n ended out stream run := by
    cases input with
    | nil => cases run
    | cons size rest =>
      cases run
      rfl
  ended input n out stream run := by
    cases input with
    | nil => cases run
    | cons size rest =>
      obtain ⟨inside, fits⟩ := of_decide_eq_true (Prod.mk.inj (Option.some.inj run)).1
      exact ⟨if_pos inside, Nat.le_trans (List.length_take_le _ _) fits⟩

def prefixedLibs : CodecLibs where
  lz4 := storingLz4
  zlib := {
    toStreamLib := prefixedLib
    compressBound := fun size => size + 1
    compress2 := fun plain _ => some (UInt8.ofNat plain.length :: plain) }
  bzp2 := {
    toStreamLib := prefixedLib
    bzCompress := fun plain _ => some (UInt8.ofNat plain.length :: plain) }
  fresh := zeros

def prefixedFormats : CodecFormats prefixedLibs := ⟨prefixedFormat, prefixedFormat⟩

/-- A frame, and the first byte of the header of another. -/
def cutFrames : Bytes := lz4Frame [1, 2, 3] 3 ++ [0]

/-- Two of three bytes are there, and what is opened has a zero for the third; and
where a frame has all the bytes, nobody looks at what is behind it. -/
theorem truncated_unreported :
    (blockCompOpen prefixedLibs.registry Codec.zlib.field 3 [3, 1, 2] = some (some [1, 2, 0]) ∧
      ¬ EagerComplete prefixedFormats .zlib [3, 1, 2] 3) ∧
    blockCompOpen prefixedLibs.registry Codec.lz4.field 3 cutFrames = some (some [1, 2, 3]) ∧
      ¬ EagerComplete prefixedFormats .lz4 cutFrames 3 := by
  constructor
  · have opened : blockCompOpen prefixedLibs.registry Codec.zlib.field 3 [3, 1, 2] =
        some (some [1, 2, 0]) := by decide +kernel
    apply And.intro opened
    intro complete
    have writes : Codec.zlib.output prefixedLibs [3, 1, 2] 3 = some [1, 2] := by decide +kernel
    cases writes.symm.trans (complete _ opened).1
  · have next : lz4Next storingLz4 cutFrames = .inr ([1, 2, 3], [0]) := by decide +kernel
    have behind : lz4Next storingLz4 [0] = .inl .cut := by decide +kernel
    have decoded : lz4Decode storingLz4 cutFrames = ([1, 2, 3], .cut) := by
      rw [lz4Decode_frame next, lz4Decode_end behind]
      rfl
    have writes : lz4Output₁ storingLz4 cutFrames 3 = some [1, 2, 3] := by
      rw [lz4Output_eq _ (by decide), decoded]
      rfl
    have opened : blockCompOpen prefixedLibs.registry Codec.lz4.field 3 cutFrames =
        some (some [1, 2, 3]) := by
      rw [blockCompOpen_output, if_neg (by decide)]
      change (lz4Output₁ storingLz4 cutFrames 3).map _ = _
      rw [writes]
      rfl
    apply And.intro opened
    intro complete
    cases decoded.symm.trans (complete _ opened).2.2

end Truncated

end LibAsdf
