import LibAsdf.Compression.Lz4

/-!
# Frames that were read

What the bytes are that the LZ4 decompressor gives, for any input.

* `Lz4Frames`: a sequence of whole frames and the bytes it stands for;
* `Lz4State.Consumed`: the frames that have been used;
* `Lz4State.Delivered`: the bytes that have been given, with what is left of the
  last block, are what these stand for;
* `lz4ReadBlock_delivered`, `lz4Fill_delivered`: this is kept;
* `lz4Init_delivered`: it holds at first.
-/

namespace LibAsdf

open Endian (beBytes leBytes leNat)

/-! ## Frames -/

/-- Whole frames, to their end, and the bytes they stand for. The sizes are
signed. -/
inductive Lz4Frames (lib : Lz4Lib) : Bytes → Bytes → Prop
  | nil : Lz4Frames lib [] []
  | snoc {front plain packed chunk : Bytes} : Lz4Frames lib front plain →
      packed.length < 2 ^ 31 → chunk.length < 2 ^ 31 →
      lib.decompressSafe packed chunk.length = some chunk →
      Lz4Frames lib (front ++ lz4Frame packed chunk.length) (plain ++ chunk)

section Headers

variable {header : Bytes} {n : Nat}

theorem bmod_eq_natCast {x : Int} {m : Nat} (eq : Int.bmod x (2 ^ 32) = m) :
    m < 2 ^ 31 ∧ x % 2 ^ 32 = m := by
  rw [Int.bmod_def] at eq
  split at eq <;> omega

/-- A first size that is positive. -/
theorem beBytes_of_blockSizeOf (full : header.length = lz4HeaderSize)
    (size : blockSizeOf header = n) (held : 0 < n) :
    n < 2 ^ 31 ∧ header.take 4 = beBytes 4 (n + 4) := by
  have length : (header.take 4).length = 4 := by
    rw [List.length_take, full]
    rfl
  have bound := Endian.beNat_lt (header.take 4)
  rw [length] at bound
  obtain ⟨small, eq⟩ := bmod_eq_natCast size
  have value : Endian.beNat (header.take 4) = n + 4 := by omega
  have bytes := Endian.beBytes_beNat (header.take 4)
  rw [length, value] at bytes
  exact ⟨small, bytes.symm⟩

/-- A second size that is not negative. -/
theorem leBytes_of_decompBlockSizeOf (full : header.length = lz4HeaderSize)
    (size : decompBlockSizeOf header = n) :
    n < 2 ^ 31 ∧ header.drop 4 = leBytes 4 n := by
  have length : (header.drop 4).length = 4 := by
    rw [List.length_drop, full]
    rfl
  have bound := Endian.leNat_lt (header.drop 4)
  rw [length] at bound
  unfold decompBlockSizeOf at size
  obtain ⟨small, eq⟩ := bmod_eq_natCast size
  have value : leNat (header.drop 4) = n := by omega
  have bytes := Endian.leBytes_leNat (header.drop 4)
  rw [length, value] at bytes
  exact ⟨small, bytes.symm⟩

/-- A header with such sizes is the header of a frame. -/
theorem lz4Frame_of_header {packed : Bytes} (full : header.length = lz4HeaderSize)
    (size : blockSizeOf header = packed.length) (held : 0 < packed.length)
    (decompSize : decompBlockSizeOf header = n) :
    packed.length < 2 ^ 31 ∧ n < 2 ^ 31 ∧ header ++ packed = lz4Frame packed n := by
  obtain ⟨small, first⟩ := beBytes_of_blockSizeOf full size held
  obtain ⟨small', second⟩ := leBytes_of_decompBlockSizeOf full decompSize
  apply And.intro small
  apply And.intro small'
  rw [lz4Frame, ← first, ← second, List.take_append_drop]

end Headers

/-! ## The state -/

variable {lib : Lz4Lib} {lz4 lz4' : Lz4State} {plain out : Bytes}

/-- The frames that have been used stand for `plain`, and the rest of the input
is unread, though some of a header may be held already. -/
structure Lz4State.Consumed (lib : Lz4Lib) (lz4 : Lz4State) (plain : Bytes) : Prop where
  inside : lz4.pos ≤ lz4.data.length
  frames : ∃ front, Lz4Frames lib front plain ∧ lz4.data = front ++ lz4.unread
  header : lz4.header.length < lz4HeaderSize ∨ lz4.header.length = lz4HeaderSize ∧
    lz4.blockSize = blockSizeOf lz4.header ∧ lz4.decompBlockSize = decompBlockSizeOf lz4.header

/-- `out` has been given of what the used frames stand for; the rest of the block
is to come. -/
def Lz4State.Delivered (lib : Lz4Lib) (lz4 : Lz4State) (out : Bytes) : Prop :=
  lz4.Consumed lib (out ++ lz4.block.drop lz4.blockPos)

/-- What is delivered comes from whole frames at the front of the input. -/
theorem Lz4State.Delivered.prefix_frames (delivered : lz4.Delivered lib out) :
    ∃ front plain, front <+: lz4.data ∧ Lz4Frames lib front plain ∧ out <+: plain := by
  obtain ⟨front, frames, eq⟩ := Lz4State.Consumed.frames delivered
  exact ⟨front, _, ⟨_, eq.symm⟩, frames, List.prefix_append _ _⟩

/-- A header that has been read. -/
theorem lz4ReadHeader_consumed (consumed : lz4.Consumed lib plain)
    (read : lz4ReadHeader lz4 = some lz4') :
    lz4'.Consumed lib plain ∧ lz4'.header.length = lz4HeaderSize ∧
      lz4'.blockSize = blockSizeOf lz4'.header ∧
      lz4'.decompBlockSize = decompBlockSizeOf lz4'.header ∧
      lz4'.data = lz4.data ∧ lz4'.block = lz4.block ∧ lz4'.blockPos = lz4.blockPos := by
  obtain ⟨inside, ⟨front, frames, eq⟩, header⟩ := consumed
  unfold lz4ReadHeader at read
  split at read
  · rename_i full
    cases read
    obtain short | ⟨-, sizes⟩ := header
    · omega
    · exact ⟨⟨inside, ⟨front, frames, eq⟩, .inr ⟨full, sizes⟩⟩, full, sizes.1, sizes.2, rfl, rfl, rfl⟩
  · rename_i partly
    dsimp only at read
    split at read
    · cases read
    · rename_i whole
      cases read
      have count : ((lz4.data.drop lz4.pos).take (lz4HeaderSize - lz4.header.length)).length =
          lz4HeaderSize - lz4.header.length := by
        rw [List.length_append] at whole
        have := List.length_take_le (lz4HeaderSize - lz4.header.length) (lz4.data.drop lz4.pos)
        omega
      have room := count
      rw [List.length_take, List.length_drop] at room
      have full : (lz4.header ++ (lz4.data.drop lz4.pos).take
          (lz4HeaderSize - lz4.header.length)).length = lz4HeaderSize := by
        rw [List.length_append, count]
        omega
      refine ⟨⟨?_, ⟨front, frames, ?_⟩, .inr ⟨full, rfl, rfl⟩⟩, full, rfl, rfl, rfl, rfl, rfl⟩
      · rw [count]
        change lz4.pos + (lz4HeaderSize - lz4.header.length) ≤ lz4.data.length
        omega
      · simp only [Lz4State.unread] at eq ⊢
        rw [count, List.append_assoc, ← List.drop_drop, List.take_append_drop]
        exact eq

/-- What has to be the case for a block to be read. -/
theorem lz4ReadBlock_some (read : lz4ReadBlock lib lz4 = some lz4') :
    ∃ lz4₁ packed chunk, lz4ReadHeader lz4 = some lz4₁ ∧
      packed = (lz4₁.data.drop lz4₁.pos).take lz4₁.blockSize.toNat ∧
      packed.length ≤ lz4₁.data.length - lz4₁.pos ∧ 0 < packed.length ∧
      lz4₁.blockSize = packed.length ∧ lz4₁.decompBlockSize = chunk.length ∧
      lib.decompressSafe packed chunk.length = some chunk ∧
      lz4' = { lz4₁ with
        block := chunk
        blockPos := 0
        pos := lz4₁.pos + packed.length
        header := [] } := by
  unfold lz4ReadBlock at read
  split at read
  · cases read
  · rename_i lz4₁ headed
    split_ifs at read with empty negative beyond
    generalize packed_eq : (lz4₁.data.drop lz4₁.pos).take lz4₁.blockSize.toNat = packed at read
    have length : packed.length = lz4₁.blockSize.toNat := by
      rw [← packed_eq, List.length_take, List.length_drop]
      omega
    split at read
    · cases read
    · rename_i chunk unpacks
      split_ifs at read with short
      cases read
      have whole : chunk.length = lz4₁.decompBlockSize.toNat := not_not.mp short
      rw [← whole] at unpacks
      exact ⟨lz4₁, packed, chunk, headed, packed_eq.symm, by omega, by omega, by omega, by omega,
        unpacks, by rw [length]⟩

/-- A block that has been read stands where the last has been given in full. -/
theorem lz4ReadBlock_delivered (delivered : lz4.Delivered lib out) (used : lz4.avail = 0)
    (read : lz4ReadBlock lib lz4 = some lz4') :
    lz4'.Delivered lib out ∧ lz4'.data = lz4.data := by
  have all : lz4.block.drop lz4.blockPos = [] := by
    unfold Lz4State.avail at used
    exact List.drop_eq_nil_iff.mpr (by omega)
  unfold Lz4State.Delivered at delivered
  rw [all, List.append_nil] at delivered
  obtain ⟨lz4₁, packed, chunk, headed, bytes, room, held, size, decompSize, unpacks, rfl⟩ :=
    lz4ReadBlock_some read
  obtain ⟨consumed, full, sized, decompSized, same, -, -⟩ := lz4ReadHeader_consumed delivered headed
  obtain ⟨inside, ⟨front, frames, eq⟩, -⟩ := consumed
  obtain ⟨small, small', frame⟩ := lz4Frame_of_header full (sized.symm.trans size) held
    (decompSized.symm.trans decompSize)
  refine ⟨⟨?_, ⟨_, .snoc frames small small' unpacks, ?_⟩, ?_⟩, same⟩
  · change lz4₁.pos + packed.length ≤ lz4₁.data.length
    omega
  · change lz4₁.data = front ++ lz4Frame packed chunk.length ++
      lz4₁.data.drop (lz4₁.pos + packed.length)
    have rest : packed ++ lz4₁.data.drop (lz4₁.pos + packed.length) = lz4₁.data.drop lz4₁.pos := by
      rw [← List.drop_drop]
      conv_lhs => enter [1]; rw [bytes]
      rw [size, Int.toNat_natCast, List.take_append_drop]
    rw [← frame, List.append_assoc, List.append_assoc, rest]
    exact eq
  · exact .inl (by decide : ([] : Bytes).length < lz4HeaderSize)

theorem lz4Advance_delivered (delivered : lz4.Delivered lib out) (n : Nat) :
    (lz4.advance n).Delivered lib (out ++ (lz4.block.drop lz4.blockPos).take n) := by
  obtain ⟨inside, frames, header⟩ := delivered
  refine ⟨inside, ?_, header⟩
  change ∃ front, Lz4Frames lib front (out ++ (lz4.block.drop lz4.blockPos).take n ++
    lz4.block.drop (lz4.blockPos + n)) ∧ lz4.data = front ++ lz4.unread
  rw [List.append_assoc, ← List.drop_drop, List.take_append_drop]
  exact frames

/-- What the loop copies comes next. -/
theorem lz4Fill_delivered {need : Nat} {more : Bytes} (delivered : lz4.Delivered lib out)
    (fill : lz4Fill lib lz4 need = some (lz4', more)) :
    lz4'.Delivered lib (out ++ more) ∧ more.length = need ∧ lz4'.data = lz4.data := by
  induction need using Nat.strongRecOn generalizing lz4 out more with
  | ind need ih =>
    unfold lz4Fill at fill
    split at fill
    · rename_i done
      cases fill
      rw [List.append_nil]
      exact ⟨delivered, done.symm, rfl⟩
    · split at fill
      · cases fill
      · rename_i lz4₁ ready
        obtain ⟨delivered₁, same⟩ : lz4₁.Delivered lib out ∧ lz4₁.data = lz4.data := by
          split at ready
          · rename_i used
            exact lz4ReadBlock_delivered delivered used ready
          · cases ready
            exact ⟨delivered, rfl⟩
        split at fill
        · cases fill
        · dsimp only at fill
          generalize count : (if lz4₁.avail < need then lz4₁.avail else need) = take at fill
          have bounds : 0 < take ∧ take ≤ need ∧ take ≤ lz4₁.avail := by split at count <;> omega
          obtain ⟨⟨lz4₂, rest⟩, again, eq⟩ := Option.map_eq_some_iff.mp fill
          cases eq
          obtain ⟨final, length, same'⟩ := ih (need - take) (by omega)
            (lz4Advance_delivered delivered₁ take) again
          rw [List.append_assoc] at final
          apply And.intro final
          apply And.intro _ (same'.trans same)
          rw [List.length_append, List.length_take, List.length_drop, length]
          unfold Lz4State.avail at bounds
          omega

/-- The first header is read when the decompressor is initialized. -/
theorem lz4Init_delivered {data : Bytes} {destSize : Nat}
    (init : lz4Init data destSize = some lz4) : lz4.Delivered lib [] ∧ lz4.data = data := by
  have fresh : (Lz4State.fresh data destSize).Consumed lib [] :=
    ⟨Nat.zero_le _, ⟨[], .nil, rfl⟩, .inl (by decide : ([] : Bytes).length < lz4HeaderSize)⟩
  obtain ⟨consumed, -, -, -, same, block, -⟩ := lz4ReadHeader_consumed fresh init
  apply And.intro _ same
  unfold Lz4State.Delivered
  rw [block, Lz4State.fresh, List.drop_nil, List.append_nil]
  exact consumed

end LibAsdf
