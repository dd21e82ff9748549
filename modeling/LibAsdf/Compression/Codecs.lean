import LibAsdf.Block.Emit
import LibAsdf.Compression.Lz4

/-!
# The registered compressors

zlib and bzip2 through their 32-bit counters, and what a block that one of the
compressors wrote is opened as.

* `StreamLib`: what is used of a library with a stream;
* `zlibComp`, `bzp2Comp`, `streamInit`, `streamDecomp`: the callbacks;
* `CodecLibs`, `Codec.compressor`: the registry;
* `RoundTripsWhen`, `lz4_undone`, `zlib_undone`, `bzp2_undone`,
  `compression_round_trip`: when a block comes back;
* `empty_block_lost`: a block that does not.
-/

namespace LibAsdf

/-! ## Streams -/

/-- A size as a 32-bit counter holds it. -/
def counter32 (size : Nat) : Nat := size % 2 ^ 32

/-- The decompressor of a library: a stream on the input that `avail_in` counts,
and a call with the output that `avail_out` counts. A call gives whether the
stream has ended, and the bytes it wrote; `none` where it is neither OK nor the
end of the stream. -/
structure StreamLib where
  Stream : Type
  start : Bytes → Stream
  run : Stream → Nat → Option (Bool × Bytes × Stream)

/-- `asdf_compressor_zlib_userdata_t`, `asdf_compressor_bzp2_userdata_t`. -/
structure StreamState (lib : StreamLib) where
  status : CompressorStatus
  stream : lib.Stream
  progress : Nat

/-- `asdf_compressor_zlib_init`, `asdf_compressor_bzp2_init`. -/
def streamInit (lib : StreamLib) (data : Bytes) : StreamState lib where
  status := .initialized
  stream := lib.start (data.take (counter32 data.length))
  progress := 0

/-- `asdf_compressor_zlib_decomp`, `asdf_compressor_bzp2_decomp`. -/
def streamDecomp (lib : StreamLib) (state : StreamState lib) (buf : Bytes) (offsetHint : Nat) :
    Option (DecompResult (StreamState lib)) :=
  let state := { state with status := .inProgress }
  if offsetHint < state.progress then some ⟨none, buf, state⟩
  else
    match lib.run state.stream (counter32 buf.length) with
    | none => none
    | some (ended, out, stream) => some ⟨some state.progress, out ++ buf.drop out.length, {
        status := if ended then .done else .inProgress
        stream := stream
        progress := state.progress + buf.length }⟩

/-! ## zlib -/

/-- `compressBound`, `compress2` at the best compression, which counts with
`uLong`, and `inflate`. -/
structure ZlibLib extends StreamLib where
  compressBound : Nat → Nat
  compress2 : Bytes → Nat → Option Bytes

def zlibComp (lib : ZlibLib) (buf : Bytes) : Option Bytes :=
  let bound := lib.compressBound buf.length
  if bound > offMax then none else lib.compress2 buf bound

/-- What is compressed into a buffer of the bound's size is decompressed again,
where both sizes can be counted. -/
def ZlibLib.Inverts (lib : ZlibLib) : Prop :=
  ∀ plain : Bytes, ∃ packed, lib.compress2 plain (lib.compressBound plain.length) = some packed ∧
    packed.length ≤ lib.compressBound plain.length ∧
    (plain.length < 2 ^ 32 → packed.length < 2 ^ 32 →
      ∃ ended stream, lib.run (lib.start packed) plain.length = some (ended, plain, stream))

/-! ## bzip2 -/

/-- `BZ2_bzCompress` to the end of the stream, `none` where it does not get
there, and `BZ2_bzDecompress`. -/
structure Bzp2Lib extends StreamLib where
  bzCompress : Bytes → Nat → Option Bytes

@[irreducible]
def bzp2Capacity (size : Nat) : Nat := size + size / 100 + 601

/-- The size that the manual asks for: 1% larger, and 600 bytes. -/
@[irreducible]
def bzp2Guaranteed (size : Nat) : Nat := size + (size + 99) / 100 + 600

theorem le_bzp2Guaranteed (size : Nat) : size ≤ bzp2Guaranteed size := by
  unfold bzp2Guaranteed
  omega

theorem bzp2Guaranteed_le (size : Nat) : bzp2Guaranteed size ≤ bzp2Capacity size := by
  unfold bzp2Guaranteed bzp2Capacity
  omega

/-- `asdf_compressor_bzp2_comp`. `fresh` is what is in the memory that `malloc`
gives; what the library leaves of it is within the size that is returned, where
the counter has been narrowed. -/
def bzp2Comp (lib : Bzp2Lib) (fresh : Nat → Bytes) (buf : Bytes) : Option Bytes :=
  let capacity := bzp2Capacity buf.length
  if capacity > offMax then none
  else
    match lib.bzCompress (buf.take (counter32 buf.length)) (counter32 capacity) with
    | none => none
    | some out =>
      let availOut := counter32 capacity - out.length
      some ((out ++ (fresh capacity).drop out.length).take (capacity - availOut))

/-- What is compressed into a buffer of the guaranteed size is decompressed
again, where both sizes can be counted. -/
def Bzp2Lib.Inverts (lib : Bzp2Lib) : Prop :=
  ∀ (plain : Bytes) (availOut : Nat), plain.length < 2 ^ 32 → availOut < 2 ^ 32 →
    bzp2Guaranteed plain.length ≤ availOut →
    ∃ packed, lib.bzCompress plain availOut = some packed ∧ packed.length ≤ availOut ∧
      ∃ ended stream, lib.run (lib.start packed) plain.length = some (ended, plain, stream)

/-! ## The registry -/

inductive Codec where
  | lz4
  | zlib
  | bzp2
  deriving DecidableEq, Repr

/-- The name, as the header field holds it. -/
def Codec.field : Codec → Bytes
  | lz4 => [0x6c, 0x7a, 0x34, 0]
  | zlib => [0x7a, 0x6c, 0x69, 0x62]
  | bzp2 => [0x62, 0x7a, 0x70, 0x32]

structure CodecLibs where
  lz4 : Lz4Lib
  zlib : ZlibLib
  bzp2 : Bzp2Lib
  fresh : Nat → Bytes

structure CodecLibs.Inverts (libs : CodecLibs) : Prop where
  lz4 : libs.lz4.Inverts
  zlib : libs.zlib.Inverts
  bzp2 : libs.bzp2.Inverts
  fresh : ∀ size, (libs.fresh size).length = size

/-- A new mapping is all zeros. -/
def zeros (size : Nat) : Bytes := List.replicate size 0

/-- The compressor of a codec; `asdf_block_decomp_eager` decompresses into the
whole destination at once. -/
def Codec.compressor (libs : CodecLibs) (codec : Codec) : Compressor where
  compression := codec.field
  comp := match codec with
    | lz4 => lz4Comp libs.lz4
    | zlib => zlibComp libs.zlib
    | bzp2 => bzp2Comp libs.bzp2 libs.fresh
  decomp data destSize := match codec with
    | lz4 => (lz4Init data destSize).bind fun state =>
        (lz4Decomp libs.lz4 state (zeros destSize) 0).map (·.buf)
    | zlib => (streamDecomp libs.zlib.toStreamLib (streamInit _ data) (zeros destSize) 0).map (·.buf)
    | bzp2 => (streamDecomp libs.bzp2.toStreamLib (streamInit _ data) (zeros destSize) 0).map (·.buf)
  length_eq := by cases codec <;> rfl
  named := by cases codec <;> decide

namespace Codec

theorem bzp2_comp (libs : CodecLibs) :
    (bzp2.compressor libs).comp = bzp2Comp libs.bzp2 libs.fresh := rfl

theorem bzp2_decomp (libs : CodecLibs) (data : Bytes) (destSize : Nat) :
    (bzp2.compressor libs).decomp data destSize = (streamDecomp libs.bzp2.toStreamLib
      (streamInit _ data) (zeros destSize) 0).map (·.buf) := rfl

theorem zlib_comp (libs : CodecLibs) : (zlib.compressor libs).comp = zlibComp libs.zlib := rfl

theorem zlib_decomp (libs : CodecLibs) (data : Bytes) (destSize : Nat) :
    (zlib.compressor libs).decomp data destSize = (streamDecomp libs.zlib.toStreamLib
      (streamInit _ data) (zeros destSize) 0).map (·.buf) := rfl

theorem lz4_comp (libs : CodecLibs) : (lz4.compressor libs).comp = lz4Comp libs.lz4 := rfl

end Codec

def CodecLibs.registry (libs : CodecLibs) : List Compressor :=
  [Codec.lz4, .zlib, .bzp2].map (Codec.compressor libs)

theorem compressorGet_registry (libs : CodecLibs) (codec : Codec) :
    compressorGet libs.registry (compressionName codec.field) = some (codec.compressor libs) := by
  cases codec <;> rfl

/-! ## Blocks -/

/-- A block of `data` with the codec set is written, and the payload, with the
codec's name and the size of the data in the header, is opened as the data. -/
def RoundTrips (libs : CodecLibs) (codec : Codec) (data : Bytes) : Prop :=
  ∀ {σ : Type} (file : WriterFile σ) (block : BlockRecord), file.registry = libs.registry →
    block.writeCompressor = some (codec.compressor libs) →
    ∃ stored, blockStored file block ⟨some data, false⟩ = .ret (some stored) ∧
      blockCompOpen file.registry stored.compression data.length stored.data = some (some data)

/-- When a block is sure to come back: it is not empty, buffers for it can be
had, and sizes are not narrowed; or, with bzip2, what is narrowed away is zeros,
and the narrowed buffer is large enough for the rest. -/
def RoundTripsWhen (compressBound : Nat → Nat) (data : Bytes) : Codec → Prop
  | .lz4 => 0 < data.length ∧ lz4Capacity data.length ≤ offMax
  | .zlib => 0 < data.length ∧ compressBound data.length < 2 ^ 32
  | .bzp2 => 0 < data.length ∧ bzp2Capacity data.length ≤ offMax ∧
      bzp2Guaranteed (counter32 data.length) ≤ counter32 (bzp2Capacity data.length) ∧
      ∀ b ∈ data.drop (counter32 data.length), b = 0

/-- The compressor gives something that its decompressor undoes. -/
def Codec.Undone (libs : CodecLibs) (codec : Codec) (data : Bytes) : Prop :=
  ∃ packed, (codec.compressor libs).comp data = some packed ∧
    (codec.compressor libs).decomp packed data.length = some data

section Callbacks

variable {libs : CodecLibs} {codec : Codec} {data : Bytes}

theorem length_zeros (size : Nat) : (zeros size).length = size := List.length_replicate

/-- It is all up to the compressor, but for empty data, which is never opened. -/
theorem roundTrips_iff : RoundTrips libs codec data ↔
    0 < data.length ∧ data.length ≤ offMax ∧ codec.Undone libs data := by
  have opened : ∀ {σ : Type} (file : WriterFile σ) (packed : Bytes),
      file.registry = libs.registry →
      blockCompOpen file.registry codec.field data.length packed =
        if data.length = 0 ∨ data.length > offMax then none
        else ((codec.compressor libs).decomp packed data.length).map some := by
    intro σ file packed registry
    have named : compressionName codec.field ≠ [] := (codec.compressor libs).named
    simp only [blockCompOpen, named, if_false, registry, compressorGet_registry]
  constructor
  · intro trips
    obtain ⟨stored, written, read⟩ := trips (σ := Unit)
      ⟨none, 0, libs.registry, none⟩ { BlockRecord.fresh with
        writeCompressor := some (codec.compressor libs) } rfl rfl
    obtain ⟨name, comp⟩ := blockStored_named rfl written
    have name : stored.compression = codec.field := name
    rw [name, opened _ _ rfl] at read
    split at read
    · cases read
    · rename_i sized
      obtain ⟨dest, decomp, eq⟩ := Option.map_eq_some_iff.mp read
      cases eq
      exact ⟨by omega, by omega, stored.data, comp, decomp⟩
  · rintro ⟨held, fits, packed, comp, decomp⟩ σ file block registry compressor
    refine ⟨⟨packed, codec.field⟩, ?_, ?_⟩
    · simp only [blockStored, compressor, comp]
      rfl
    · rw [opened _ _ registry, if_neg (by omega), decomp]
      rfl

/-- No block that is empty comes back. -/
theorem not_roundTrips_nil : ¬ RoundTrips libs codec [] := by
  rw [roundTrips_iff]
  rintro ⟨held, -⟩
  cases held

/-- What one call on a stream leaves in the destination. -/
theorem streamDecomp_eager (lib : StreamLib) (packed : Bytes) (size : Nat) :
    (streamDecomp lib (streamInit lib packed) (zeros size) 0).map (·.buf) =
      (lib.run (lib.start (packed.take (counter32 packed.length))) (counter32 size)).map
        fun r => r.2.1 ++ (zeros size).drop r.2.1.length := by
  simp only [streamDecomp, streamInit, Nat.lt_irrefl, if_false, length_zeros]
  cases lib.run (lib.start (packed.take (counter32 packed.length))) (counter32 size) <;> rfl

theorem counter32_of_lt {size : Nat} (small : size < 2 ^ 32) : counter32 size = size :=
  Nat.mod_eq_of_lt small

theorem counter32_lt (size : Nat) : counter32 size < 2 ^ 32 := Nat.mod_lt _ (by decide)

theorem counter32_le (size : Nat) : counter32 size ≤ size := Nat.mod_le _ _

/-! ### lz4 -/

theorem le_lz4Capacity (size : Nat) : size ≤ lz4Capacity size := by
  induction size using Nat.strongRecOn with
  | ind n ih =>
    unfold lz4Capacity
    by_cases empty : n = 0
    · omega
    · have blockSize : lz4BlockSize = 2 ^ 22 := rfl
      simp only [empty, if_false]
      generalize chunk : (if n > lz4BlockSize then lz4BlockSize else n) = chunkSize
      have bounds : 0 < chunkSize ∧ chunkSize ≤ n := by split at chunk <;> omega
      have rest := ih (n - chunkSize) (by omega)
      have : chunkSize ≤ lz4CompressBound chunkSize := by
        unfold lz4CompressBound
        omega
      omega

theorem lz4_round_trip {lib : Lz4Lib} (inverts : lib.Inverts) (held : 0 < data.length) :
    ∃ packed, lz4CompLoop lib data = some packed ∧
      (lz4Init packed data.length).bind (fun state =>
        (lz4Decomp lib state (zeros data.length) 0).map (·.buf)) = some data := by
  obtain ⟨packed, comp, decodes⟩ := lz4CompLoop_decodes inverts data
  refine ⟨packed, comp, ?_⟩
  have some : data ≠ [] := List.ne_nil_of_length_pos held
  obtain ⟨lz4, init, pending, progress, size, -⟩ := lz4Init_pending decodes some data.length
  obtain ⟨lz4', decomp, -⟩ := lz4Decomp_pending pending (zeros data.length) 0
    (Nat.le_of_eq progress) (by omega) (by rw [length_zeros]; omega)
  rw [progress, size, length_zeros, Nat.sub_zero, Nat.min_self, List.take_length,
    List.drop_of_length_le (Nat.le_of_eq (length_zeros _)), List.append_nil] at decomp
  simp only [init, Option.bind_some, decomp, Option.map_some]

/-! ### bzip2 -/

/-- What the narrowed counter of the payload's size covers. -/
theorem bzp2_payload {out fresh : Bytes} {capacity : Nat} (size : fresh.length = capacity)
    (room : out.length ≤ counter32 capacity) :
    let payload := (out ++ fresh.drop out.length).take
      (capacity - (counter32 capacity - out.length))
    payload.take (counter32 payload.length) = out := by
  intro payload
  have narrow := counter32_lt capacity
  have le := counter32_le capacity
  have length : payload.length = capacity - (counter32 capacity - out.length) := by
    change (List.take _ _).length = _
    rw [List.length_take, List.length_append, List.length_drop, size]
    omega
  have counted : counter32 payload.length = out.length := by
    rw [length]
    unfold counter32 at *
    omega
  rw [counted]
  change (List.take _ _).take _ = _
  rw [List.take_take, Nat.min_eq_left (by omega), List.take_left]

/-- What `asdf_compressor_bzp2_decomp` is to give for what the library wrote. -/
theorem bzp2_narrowed {lib : Bzp2Lib} {out fresh : Bytes}
    (size : fresh.length = bzp2Capacity data.length)
    (room : out.length ≤ counter32 (bzp2Capacity data.length)) :
    (streamDecomp lib.toStreamLib (streamInit _ ((out ++ fresh.drop out.length).take
        (bzp2Capacity data.length - (counter32 (bzp2Capacity data.length) - out.length))))
      (zeros data.length) 0).map (·.buf) =
        (lib.run (lib.start out) (counter32 data.length)).map
          fun r => r.2.1 ++ (zeros data.length).drop r.2.1.length := by
  rw [streamDecomp_eager, bzp2_payload size room]

/-- The narrowed part, with zeros after it, is the data where those are zeros. -/
theorem narrowed_eq_iff : data.take (counter32 data.length) ++
      (zeros data.length).drop (data.take (counter32 data.length)).length = data ↔
    ∀ b ∈ data.drop (counter32 data.length), b = 0 := by
  have le := counter32_le data.length
  have tail : (zeros data.length).drop (data.take (counter32 data.length)).length =
      List.replicate (data.drop (counter32 data.length)).length 0 := by
    rw [zeros, List.drop_replicate, List.length_take, List.length_drop, Nat.min_eq_left le]
  rw [tail]
  conv_lhs => rhs; rw [← List.take_append_drop (counter32 data.length) data]
  rw [List.append_cancel_left_eq, eq_comm, List.eq_replicate_iff]
  exact and_iff_right rfl

/-- A library that writes no more than it is asked to. -/
def StreamLib.Bounded (lib : StreamLib) : Prop :=
  ∀ stream availOut ended out stream', lib.run stream availOut = some (ended, out, stream') →
    out.length ≤ availOut

theorem streamDecomp_lost {lib : StreamLib} (bounded : lib.Bounded) {packed : Bytes}
    (lost : ∃ b ∈ data.drop (counter32 data.length), b ≠ 0) :
    (streamDecomp lib (streamInit lib packed) (zeros data.length) 0).map (·.buf) ≠ some data := by
  rw [streamDecomp_eager]
  intro same
  obtain ⟨⟨ended, out, stream⟩, run, same⟩ := Option.map_eq_some_iff.mp same
  have room := bounded _ _ _ _ _ run
  obtain ⟨b, mem, nonzero⟩ := lost
  simp only at same
  rw [← same, List.drop_append, List.drop_of_length_le (by rwa [same]), List.nil_append] at mem
  exact nonzero (List.eq_of_mem_replicate (List.mem_of_mem_drop (List.mem_of_mem_drop mem)))

/-- Such libraries cannot give back what has been narrowed away, if that is not
all zeros. -/
theorem not_roundTrips_of_narrowed (zlib : libs.zlib.Bounded) (bzp2 : libs.bzp2.Bounded)
    (stream : codec ≠ .lz4) (lost : ∃ b ∈ data.drop (counter32 data.length), b ≠ 0) :
    ¬ RoundTrips libs codec data := by
  rw [roundTrips_iff]
  rintro ⟨-, -, packed, -, decomp⟩
  cases codec with
  | lz4 => exact stream rfl
  | zlib => exact streamDecomp_lost zlib lost decomp
  | bzp2 => exact streamDecomp_lost bzp2 lost decomp

end Callbacks

/-! ## When a block comes back -/

section Libraries

/-- Libraries that do no more than they have to. -/
def storingLz4 : Lz4Lib where
  compressDefault plain _ := some plain
  decompressSafe packed _ := some packed

/-- A zlib whose output for `data` is as large as can be, and of no use if it is
cut short. -/
def storingZlib (compressBound : Nat → Nat) (data : Bytes) : ZlibLib where
  Stream := Bytes
  start packed := packed
  run packed availOut :=
    if packed.head? = some 0 ∧ packed.tail.length = availOut then some (true, packed.tail, [])
    else if packed.length = compressBound data.length ∧ availOut = data.length then
      some (true, data, [])
    else none
  compressBound := compressBound
  compress2 plain _ :=
    if plain = data then some (List.replicate (compressBound data.length) 1)
    else some (0 :: plain)

def storingBzp2 : Bzp2Lib where
  Stream := Bytes
  start packed := packed
  run packed availOut := some (true, packed.take availOut, [])
  bzCompress plain availOut :=
    if bzp2Guaranteed plain.length ≤ availOut then some plain else none

def storingLibs (compressBound : Nat → Nat) (data : Bytes) : CodecLibs :=
  ⟨storingLz4, storingZlib compressBound data, storingBzp2, zeros⟩

theorem not_head_replicate {n : Nat} : (List.replicate n (1 : Byte)).head? ≠ some 0 := by
  cases n with
  | zero => exact nofun
  | succ n =>
    rw [List.replicate_succ, List.head?_cons]
    decide

theorem storingZlib_whole {compressBound : Nat → Nat} {data : Bytes} {n availOut : Nat}
    {r : Bool × Bytes × Bytes} (run : (storingZlib compressBound data).run
      (List.replicate n 1 : Bytes) availOut = some r) : n = compressBound data.length := by
  simp only [storingZlib] at run
  rw [if_neg fun h => not_head_replicate h.1, List.length_replicate] at run
  split at run
  · rename_i whole
    exact whole.1
  · cases run

theorem storingLibs_inverts {compressBound : Nat → Nat} (room : ∀ size, size < compressBound size)
    (data : Bytes) : (storingLibs compressBound data).Inverts where
  lz4 plain held _ := ⟨plain, rfl, held, by unfold lz4CompressBound; omega, rfl⟩
  zlib plain := by
    have more := room plain.length
    simp only [storingLibs, storingZlib]
    by_cases same : plain = data
    · subst same
      refine ⟨_, if_pos rfl, Nat.le_of_eq List.length_replicate, fun _ _ => ⟨true, [], ?_⟩⟩
      rw [if_neg fun h => not_head_replicate h.1, if_pos ⟨List.length_replicate, rfl⟩]
    · exact ⟨_, if_neg same, more, fun _ _ => ⟨true, [], if_pos ⟨rfl, rfl⟩⟩⟩
  bzp2 plain availOut _ _ enough := by
    refine ⟨plain, if_pos enough, Nat.le_trans (le_bzp2Guaranteed _) enough, true, [], ?_⟩
    simp only [storingLibs, storingBzp2, List.take_length]
  fresh := length_zeros

end Libraries

section When

variable {libs : CodecLibs} {compressBound : Nat → Nat} {data : Bytes}

theorem lz4_undone (inverts : libs.Inverts) (held : 0 < data.length)
    (fits : lz4Capacity data.length ≤ offMax) : Codec.lz4.Undone libs data := by
  obtain ⟨packed, comp, decomp⟩ := lz4_round_trip inverts.lz4 held
  exact ⟨packed, (if_neg (Nat.not_lt_of_le fits)).trans comp, decomp⟩

theorem zlib_undone (inverts : libs.Inverts)
    (more : data.length < libs.zlib.compressBound data.length)
    (small : libs.zlib.compressBound data.length < 2 ^ 32) : Codec.zlib.Undone libs data := by
  have max : 2 ^ 32 ≤ offMax := by decide
  obtain ⟨packed, comp, le, run⟩ := inverts.zlib data
  obtain ⟨ended, stream, run⟩ := run (by omega) (by omega)
  refine ⟨packed, ?_, ?_⟩
  · rw [Codec.zlib_comp, zlibComp, if_neg (by omega), comp]
  · rw [Codec.zlib_decomp, streamDecomp_eager, counter32_of_lt (by omega),
      counter32_of_lt (by omega), List.take_length, run, Option.map_some,
      List.drop_of_length_le (Nat.le_of_eq (length_zeros _)), List.append_nil]

theorem bzp2_undone (inverts : libs.Inverts) (fits : bzp2Capacity data.length ≤ offMax)
    (enough : bzp2Guaranteed (counter32 data.length) ≤ counter32 (bzp2Capacity data.length))
    (lost : ∀ b ∈ data.drop (counter32 data.length), b = 0) : Codec.bzp2.Undone libs data := by
  have length : (data.take (counter32 data.length)).length = counter32 data.length := by
    rw [List.length_take, Nat.min_eq_left (counter32_le _)]
  obtain ⟨out, comp, room, ended, stream, run⟩ := inverts.bzp2 (data.take _) _
    (by rw [length]; exact counter32_lt _) (counter32_lt (bzp2Capacity data.length))
    (by rwa [length])
  rw [length] at run
  refine ⟨(out ++ (libs.fresh (bzp2Capacity data.length)).drop out.length).take
    (bzp2Capacity data.length - (counter32 (bzp2Capacity data.length) - out.length)), ?_, ?_⟩
  · simp only [Codec.bzp2_comp, bzp2Comp, Nat.not_lt_of_le fits, if_false, comp]
  · rw [Codec.bzp2_decomp, bzp2_narrowed (inverts.fresh _) room, run, Option.map_some]
    exact congrArg some (narrowed_eq_iff.mpr lost)

theorem fits_of_lz4_undone (undone : Codec.lz4.Undone libs data) :
    lz4Capacity data.length ≤ offMax := by
  obtain ⟨packed, comp, -⟩ := undone
  by_contra large
  rw [Codec.lz4_comp, lz4Comp, if_pos (Nat.lt_of_not_le large)] at comp
  cases comp

/-- Output that is as large as can be has to be counted whole. -/
theorem small_of_zlib_undone (undone : Codec.zlib.Undone (storingLibs compressBound data) data) :
    compressBound data.length < 2 ^ 32 := by
  obtain ⟨packed, comp, decomp⟩ := undone
  rw [Codec.zlib_comp, zlibComp] at comp
  rw [Codec.zlib_decomp, streamDecomp_eager] at decomp
  split at comp
  · cases comp
  · have packed_eq : some (List.replicate (compressBound data.length) 1) = some packed :=
      (if_pos rfl).symm.trans comp
    cases packed_eq
    rw [List.length_replicate, List.take_replicate, Nat.min_eq_left (counter32_le _)] at decomp
    obtain ⟨r, run, -⟩ := Option.map_eq_some_iff.mp decomp
    rw [← storingZlib_whole run]
    exact counter32_lt _

theorem when_of_bzp2_undone (undone : Codec.bzp2.Undone (storingLibs compressBound data) data) :
    bzp2Capacity data.length ≤ offMax ∧
      bzp2Guaranteed (counter32 data.length) ≤ counter32 (bzp2Capacity data.length) ∧
      ∀ b ∈ data.drop (counter32 data.length), b = 0 := by
  obtain ⟨packed, comp, decomp⟩ := undone
  rw [Codec.bzp2_comp, bzp2Comp] at comp
  rw [Codec.bzp2_decomp] at decomp
  simp only [storingLibs] at comp decomp
  have length : (data.take (counter32 data.length)).length = counter32 data.length := by
    rw [List.length_take, Nat.min_eq_left (counter32_le _)]
  split at comp
  · cases comp
  · rename_i fits
    refine ⟨Nat.le_of_not_lt fits, ?_⟩
    by_cases enough : bzp2Guaranteed (counter32 data.length) ≤
        counter32 (bzp2Capacity data.length)
    · have out : storingBzp2.bzCompress (data.take (counter32 data.length))
          (counter32 (bzp2Capacity data.length)) =
            some (data.take (counter32 data.length)) := if_pos (by rwa [length])
      rw [out] at comp
      cases comp
      have room : (data.take (counter32 data.length)).length ≤
          counter32 (bzp2Capacity data.length) := by
        rw [length]
        exact Nat.le_trans (le_bzp2Guaranteed _) enough
      have run : storingBzp2.run (storingBzp2.start (data.take (counter32 data.length)))
          (counter32 data.length) = some (true, data.take (counter32 data.length), []) := by
        simp only [storingBzp2, List.take_take, Nat.min_self]
      rw [bzp2_narrowed (length_zeros _) room, run] at decomp
      exact ⟨enough, narrowed_eq_iff.mp (Option.some.inj decomp)⟩
    · have out : storingBzp2.bzCompress (data.take (counter32 data.length))
          (counter32 (bzp2Capacity data.length)) = none := if_neg (by rwa [length])
      rw [out] at comp
      cases comp

end When

/-- A block is sure to come back, whatever the libraries, exactly if
`RoundTripsWhen` says so. -/
theorem compression_round_trip (compressBound : Nat → Nat)
    (room : ∀ size, size < compressBound size) (codec : Codec) (data : Bytes) :
    (∀ libs : CodecLibs, libs.zlib.compressBound = compressBound → libs.Inverts →
      RoundTrips libs codec data) ↔ RoundTripsWhen compressBound data codec := by
  have more := room data.length
  constructor
  · intro trips
    obtain ⟨held, -, undone⟩ := roundTrips_iff.mp
      (trips (storingLibs compressBound data) rfl (storingLibs_inverts room data))
    cases codec with
    | lz4 => exact ⟨held, fits_of_lz4_undone undone⟩
    | zlib => exact ⟨held, small_of_zlib_undone undone⟩
    | bzp2 => exact ⟨held, when_of_bzp2_undone undone⟩
  · rintro good libs rfl inverts
    apply roundTrips_iff.mpr
    cases codec with
    | lz4 =>
      obtain ⟨held, fits⟩ := good
      exact ⟨held, Nat.le_trans (le_lz4Capacity _) fits, lz4_undone inverts held fits⟩
    | zlib =>
      obtain ⟨held, small⟩ := good
      have max : 2 ^ 32 ≤ offMax := by decide
      exact ⟨held, by omega, zlib_undone inverts more small⟩
    | bzp2 =>
      obtain ⟨held, fits, enough, lost⟩ := good
      refine ⟨held, ?_, bzp2_undone inverts fits enough lost⟩
      unfold bzp2Capacity at fits
      omega

/-- With bzip2 it is enough that the size of the buffer is not narrowed. -/
theorem roundTripsWhen_bzp2 {compressBound : Nat → Nat} {data : Bytes} (held : 0 < data.length)
    (small : bzp2Capacity data.length < 2 ^ 32) : RoundTripsWhen compressBound data .bzp2 := by
  have max : 2 ^ 32 ≤ offMax := by decide
  have le := Nat.le_trans (le_bzp2Guaranteed _) (bzp2Guaranteed_le data.length)
  refine ⟨held, by omega, ?_, ?_⟩
  · rw [counter32_of_lt (by omega), counter32_of_lt small]
    exact bzp2Guaranteed_le _
  · rw [counter32_of_lt (by omega), List.drop_length]
    exact nofun

/-- `compressBound` of zlib. -/
def zlibCompressBound (size : Nat) : Nat :=
  size + size / 2 ^ 12 + size / 2 ^ 14 + size / 2 ^ 25 + 13

theorem compression_round_trip_short : RoundTripsWhen zlibCompressBound [1, 2, 3] .zlib ∧
    ∀ libs : CodecLibs, libs.zlib.compressBound = zlibCompressBound → libs.Inverts →
      RoundTrips libs .zlib [1, 2, 3] := by
  have room : ∀ size, size < zlibCompressBound size := by
    intro size
    unfold zlibCompressBound
    omega
  have small : RoundTripsWhen zlibCompressBound [1, 2, 3] .zlib := ⟨by decide, by decide⟩
  exact ⟨small, (compression_round_trip zlibCompressBound room .zlib [1, 2, 3]).mpr small⟩

/-- Empty data is compressed, by any of the compressors, to a block that cannot
be opened. -/
theorem empty_block_lost : ∃ libs : CodecLibs, libs.Inverts ∧
    (∀ codec, ((Codec.compressor libs codec).comp []).isSome = true) ∧
    ∀ codec, ¬ RoundTrips libs codec [] := by
  refine ⟨storingLibs zlibCompressBound [], storingLibs_inverts ?_ [], ?_,
    fun codec => not_roundTrips_nil⟩
  · intro size
    unfold zlibCompressBound
    omega
  · intro codec
    cases codec with
    | lz4 =>
      rw [Codec.lz4_comp, lz4Comp, if_neg (by unfold lz4Capacity; decide), lz4CompLoop]
      rfl
    | zlib => rfl
    | bzp2 =>
      have fits : ¬ bzp2Capacity 0 > offMax := by
        unfold bzp2Capacity
        decide
      have enough : bzp2Guaranteed 0 ≤ counter32 (bzp2Capacity 0) := by
        unfold bzp2Guaranteed bzp2Capacity
        decide
      have out : storingBzp2.bzCompress ([] : Bytes) (counter32 (bzp2Capacity 0)) = some [] :=
        if_pos enough
      simp only [Codec.bzp2_comp, bzp2Comp, List.length_nil, fits, if_false, List.take_nil,
        storingLibs, out, Option.isSome_some]

end LibAsdf
