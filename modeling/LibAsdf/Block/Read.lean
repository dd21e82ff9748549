import LibAsdf.Base.Endian
import LibAsdf.Parser.Block
import LibAsdf.Stream.Content

/-!
# Reading a block header

`asdf_block_info_read` on a stream of either kind, as a function of the bytes
to come.

* `headerSizeOf`: the header size that the bytes name;
* `blockInfoRead_moves`: a header that is there in full is read;
* `fileBlockInfoRead_short`: what is read where the magic is not in the buffer.
-/

namespace LibAsdf

open StreamOps ReadContent LawfulRead

theorem View.Shows.load {v : View} {bytes : Bytes} (h : v.Shows bytes) {n : Nat}
    (le : n ≤ bytes.length) : load v.mem 0 n = .ret (bytes.take n) := by
  have inside : 0 + n ≤ v.mem.length := by
    have := h.len_le
    have := h.1
    omega
  rw [load_of_le inside, List.drop_zero, ← h.2, List.take_take, Nat.min_eq_left (h.1 ▸ le)]

theorem Shown.some_of_ne {v : Option View} {bytes : Bytes} (h : Shown v bytes)
    (held : bytes ≠ []) : ∃ w, v = some w ∧ w.Shows bytes := by
  cases v with
  | none => exact absurd h held
  | some w => exact ⟨w, rfl, h⟩

/-- The header size named by the two bytes after the magic. -/
def headerSizeOf (bytes : Bytes) : Nat := beNat ((bytes.drop 4).take 2)

theorem headerSizeOf_lt (bytes : Bytes) : headerSizeOf bytes < 2 ^ 16 := by
  have lt := Endian.beNat_lt ((bytes.drop 4).take 2)
  rw [Endian.beNat_eq_foldl] at lt
  have short : ((bytes.drop 4).take 2).length ≤ 2 := by
    rw [List.length_take]
    exact Nat.min_le_left _ _
  exact Nat.lt_of_lt_of_le lt (Nat.pow_le_pow_right (by decide) short)

/-- The header that a block's bytes hold. -/
def headerOf (header : BlockHeader) (bytes : Bytes) : BlockHeader :=
  { header with headerSize := headerSizeOf bytes }.decode ((bytes.drop 6).take blockHeaderSize)

/-- What a successful read leaves in `out_block`. -/
def BlockInfo.readAt (outBlock : BlockInfo) (pos : Nat) (bytes : Bytes) : BlockInfo :=
  { outBlock with
    headerPos := pos
    dataPos := (pos + (6 + headerSizeOf bytes) : Nat)
    header := headerOf outBlock.header bytes }

section Reader

variable {σ : Type} [StreamOps σ] [LawfulRead σ]

/-- `next` of a count that is there shows it. -/
theorem next_shows {s : σ} (sane : Sane s) {count : Nat} (asked : count ≠ 0)
    (small : count ≤ offMax) (enough : count ≤ (coming s).length) :
    ∃ v t bytes, next s count = .ret (some v, t) ∧ Moved s 0 t ∧ count ≤ inView t ∧
      v.Shows bytes ∧ count ≤ bytes.length ∧ bytes.take count = (coming s).take count := by
  obtain ⟨v, t, run, moved, -, seen, shown⟩ := next_moves s count sane asked small
  have view : count ≤ inView t := by omega
  have length : ((coming s).take (inView t)).length ≥ count := by
    rw [List.length_take]
    omega
  have held : (coming s).take (inView t) ≠ [] := by
    intro empty
    rw [empty, List.length_nil] at length
    omega
  obtain ⟨w, rfl, shows⟩ := shown.some_of_ne held
  exact ⟨w, t, _, run, moved, view, shows, length, by rw [List.take_take, Nat.min_eq_left view]⟩

theorem blockInfoReadFields_moves {s : σ} (sane : Sane s) (calm : errorGet s = none)
    (outBlock : BlockInfo) (large : blockHeaderSize ≤ outBlock.header.headerSize)
    (small : outBlock.header.headerSize < 2 ^ 16)
    (whole : outBlock.header.headerSize ≤ (coming s).length)
    (room : pos s + outBlock.header.headerSize ≤ offMax) (headerPos : Int) :
    ∃ t, blockInfoReadFields headerPos outBlock s = .ret (true, { outBlock with
          headerPos := headerPos
          dataPos := (pos s + outBlock.header.headerSize : Nat)
          header := outBlock.header.decode ((coming s).take blockHeaderSize) }, t) ∧
      Moved s outBlock.header.headerSize t := by
  have asked : outBlock.header.headerSize ≠ 0 := by
    have : 48 ≤ outBlock.header.headerSize := large
    omega
  have fits : outBlock.header.headerSize ≤ offMax := Nat.le_trans (Nat.le_of_lt small) (by decide)
  obtain ⟨v, t, bytes, run, moved, view, shows, length, same⟩ := next_shows sane asked fits whole
  have fields : load v.mem 0 blockHeaderSize = .ret ((coming s).take blockHeaderSize) := by
    rw [shows.load (Nat.le_trans large length)]
    have := congrArg (List.take blockHeaderSize) same
    rw [List.take_take, List.take_take, Nat.min_eq_left large] at this
    rw [this]
  obtain ⟨u, consumed, moved', -⟩ := consume_moves t _ moved.sane view
  have onward := moved.trans moved'
  rw [Nat.zero_add] at onward
  have long : ¬ v.len < outBlock.header.headerSize := by
    have := shows.1
    omega
  have calm' : ¬ (errorGet u).isSome = true := by
    rw [onward.error_eq, calm]
    exact nofun
  have place : tell u = (pos s + outBlock.header.headerSize : Nat) := by
    rw [tell_eq u onward.sane (by rw [onward.pos_eq]; exact room), onward.pos_eq]
  refine ⟨u, ?_, onward⟩
  simp only [blockInfoReadFields, run, Outcome.ret_bind, if_neg long, fields, consumed,
    if_neg calm', place]
  rfl

/-- A header that is there in full is read, whatever its size. -/
theorem blockInfoRead_moves {s : σ} (sane : Sane s) (view : 4 ≤ inView s)
    (calm : errorGet s = none) (large : blockHeaderSize ≤ headerSizeOf (coming s))
    (whole : 6 + headerSizeOf (coming s) ≤ (coming s).length)
    (room : pos s + (6 + headerSizeOf (coming s)) ≤ offMax) (outBlock : BlockInfo) :
    ∃ t, blockInfoRead outBlock s = .ret (true, outBlock.readAt (pos s) (coming s), t) ∧
      Moved s (6 + headerSizeOf (coming s)) t := by
  have here : tell s = pos s := tell_eq s sane (by omega)
  obtain ⟨t, magic, moved, -⟩ := consume_moves s 4 sane view
  have left : 2 ≤ (coming t).length := by
    rw [moved.coming_eq, List.length_drop]
    omega
  obtain ⟨v, u, bytes, run, moved', view', shows, length, same⟩ :=
    next_shows moved.sane (by decide) (by decide) left
  have size : beNat ((coming t).take 2) = headerSizeOf (coming s) := by
    rw [moved.coming_eq]
    rfl
  obtain ⟨w, consumed, moved'', -⟩ := consume_moves u 2 moved'.sane view'
  have onward := moved.trans (moved'.trans moved'')
  have calm₁ : ¬ (errorGet t).isSome = true := by
    rw [moved.error_eq, calm]
    exact nofun
  have calm₂ : errorGet w = none := onward.error_eq.trans calm
  have calm₃ : ¬ (errorGet w).isSome = true := by
    rw [calm₂]
    exact nofun
  have long : ¬ v.len < 2 := by
    have := shows.1
    omega
  have bytes₂ : load v.mem 0 2 = .ret ((coming t).take 2) := by rw [shows.load length, same]
  have enough : ¬ headerSizeOf (coming s) < blockHeaderSize := Nat.not_lt_of_le large
  have rest : coming w = (coming s).drop 6 := onward.coming_eq
  have onPos : pos w = pos s + 6 := onward.pos_eq
  obtain ⟨x, fields, last⟩ := blockInfoReadFields_moves onward.sane calm₂
    { outBlock with header := { outBlock.header with headerSize := headerSizeOf (coming s) } } large (headerSizeOf_lt _) (by rw [rest, List.length_drop]; simp only; omega)
    (by rw [onPos]; simp only; omega) (pos s)
  refine ⟨x, ?_, onward.trans last⟩
  have length4 : blockMagic.length = 4 := rfl
  simp only [blockInfoRead, here, length4, magic, Outcome.ret_bind, if_neg calm₁, run,
    if_neg long, bytes₂, size, if_neg enough, consumed, if_neg calm₃, fields]
  simp only [BlockInfo.readAt, headerOf, rest, onPos, Nat.add_assoc]

/-- Where an error is set, nothing is read. -/
theorem blockInfoRead_calm {s t : σ} (sane : Sane s) (view : 4 ≤ inView s) {outBlock info : BlockInfo}
    (run : blockInfoRead outBlock s = .ret (true, info, t)) : errorGet s = none := by
  obtain ⟨u, magic, moved, -⟩ := consume_moves s 4 sane view
  unfold blockInfoRead at run
  change (consume s 4 >>= _) = _ at run
  rw [magic, Outcome.ret_bind] at run
  split at run
  · cases run
  · rename_i calm
    rw [← moved.error_eq]
    exact Option.not_isSome_iff_eq_none.mp calm

end Reader

/-! ## A magic that is not in the buffer -/

section Short

variable {s t : FileStream}

theorem fileConsume_leaves {n : Nat} (run : fileConsume s n = .ret t) :
    t.filePos = s.filePos + n ∧ t.file = s.file ∧ t.buf = s.buf ∧ t.bufAvail = s.bufAvail ∧
      t.bufPos = min (s.bufPos + n) s.bufAvail := by
  obtain ⟨base, -, run⟩ := Outcome.bind_eq_ret.mp run
  cases run
  exact ⟨rfl, rfl, rfl, rfl, rfl⟩

theorem fileNext_leaves (le : s.bufPos ≤ s.bufAvail) {count : Nat} {v : Option View}
    (run : fileNext s count = .ret (v, t)) : t.filePos = s.filePos := by
  have spec := fileNext_spec le count
  rw [run] at spec
  obtain ⟨-, filePos, -⟩ | ⟨-, -, refused⟩ := spec
  · exact filePos
  · cases refused
    rfl

/-- The file that is read on behind a buffer that is used up. -/
theorem fileNext_used (sound : s.Sound) (used : s.bufPos = s.bufAvail) {count : Nat}
    (asked : count ≠ 0) (small : count ≤ offMax) {v : View}
    (run : fileNext s count = .ret (some v, t)) :
    t.Sound ∧ t.filePos = s.filePos ∧ ∃ n, v.Shows (s.file.rest.take n) := by
  have spec := fileNext_spec sound.pos_le count
  rw [run] at spec
  obtain ⟨-, filePos, shown, next⟩ | ⟨large, -⟩ := spec
  · cases next with
    | kept enough left => omega
    | filled none => exact absurd none asked
    | shifted short size bufPos avail bytes file =>
      obtain ⟨sound', window, -⟩ := shifted_remaining sound size bufPos avail (bytes sound) file
      have rest : s.remaining = s.file.rest := by
        have empty : s.window = [] := by
          apply List.eq_nil_of_length_eq_zero
          rw [sound.window_length]
          omega
        rw [FileStream.remaining, empty, List.nil_append]
      have seen := shown_window sound'
      rw [show t.shown = some v from shown.symm, window, rest] at seen
      exact ⟨sound', filePos, _, seen⟩
  · exact absurd small (Nat.not_le_of_lt large)

/-- The file's own bytes follow those that are in the buffer. -/
theorem FileStream.Coherent.rest_eq (h : s.Coherent) : s.file.rest = (coming s).drop (inView s) := by
  change _ = s.ahead.drop (s.bufAvail - s.bufPos)
  rw [← h.remaining_eq, FileStream.remaining, ← h.sound.window_length, List.drop_left]

/-- What is not in the buffer is not passed over: the size is read of the bytes that
come behind those that are, and the position counted as if it had been. -/
theorem fileBlockInfoRead_short (h : s.Coherent) (short : inView s ≤ 4)
    {outBlock info : BlockInfo} (run : blockInfoRead outBlock s = .ret (true, info, t)) :
    info.dataPos = -1 ∨
      info.dataPos = (s.filePos + (6 + beNat (((coming s).drop (inView s)).take 2)) : Nat) := by
  unfold blockInfoRead at run
  obtain ⟨t₁, consumed₁, run⟩ := Outcome.bind_eq_ret.mp run
  obtain ⟨pos₁, file₁, buf₁, avail₁, bufPos₁⟩ := fileConsume_leaves consumed₁
  split at run
  · cases run
  obtain ⟨⟨v, t₂⟩, next₂, run⟩ := Outcome.bind_eq_ret.mp run
  cases v with
  | none => cases run
  | some v =>
    dsimp only at run
    split at run
    · cases run
    rename_i enough
    have lower := h.sound.pos_le
    have upper := h.sound.avail_le
    have short : s.bufAvail - s.bufPos ≤ 4 := short
    have used : t₁.bufPos = t₁.bufAvail := by
      rw [bufPos₁, avail₁]
      exact Nat.min_eq_right (by change _ ≤ s.bufPos + 4; omega)
    have sound₁ : t₁.Sound := ⟨Nat.le_of_eq used, by rw [avail₁, buf₁]; exact upper⟩
    obtain ⟨sound₂, pos₂, n, shows⟩ := fileNext_used sound₁ used (by decide) (by decide) next₂
    obtain ⟨bytes, loaded, run⟩ := Outcome.bind_eq_ret.mp run
    have length := shows.1
    rw [shows.load (by omega)] at loaded
    cases loaded
    have bytes : (t₁.file.rest.take n).take 2 = ((coming s).drop (inView s)).take 2 := by
      rw [List.length_take] at length
      rw [List.take_take, Nat.min_eq_left (by omega), file₁, h.rest_eq]
    rw [bytes] at run
    split at run
    · cases run
    obtain ⟨t₃, consumed₃, run⟩ := Outcome.bind_eq_ret.mp run
    obtain ⟨pos₃, -, -, avail₃, bufPos₃⟩ := fileConsume_leaves consumed₃
    split at run
    · cases run
    unfold blockInfoReadFields at run
    obtain ⟨⟨v', t₄⟩, next₄, run⟩ := Outcome.bind_eq_ret.mp run
    have pos₄ := fileNext_leaves (by rw [bufPos₃, avail₃]; exact Nat.min_le_right _ _) next₄
    cases v' with
    | none => cases run
    | some v' =>
      dsimp only at run
      split at run
      · cases run
      obtain ⟨fields, -, run⟩ := Outcome.bind_eq_ret.mp run
      obtain ⟨t₅, consumed₅, run⟩ := Outcome.bind_eq_ret.mp run
      obtain ⟨pos₅, -⟩ := fileConsume_leaves consumed₅
      split at run
      · cases run
      cases run
      change (if t.filePos > offMax then (-1 : Int) else t.filePos) = -1 ∨
        (if t.filePos > offMax then (-1 : Int) else t.filePos) = _
      split
      · exact .inl rfl
      · right
        rw [pos₅, pos₄, pos₃, pos₂, pos₁]
        change ((s.filePos + 4 + 2 + _ : Nat) : Int) = _
        congr 1
        omega

end Short

end LibAsdf
