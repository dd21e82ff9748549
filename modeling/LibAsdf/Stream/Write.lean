import LibAsdf.Stream.FilePosition
import LibAsdf.Stream.MemPosition

/-!
# Streams that are written to

* `OutStream`: what the emitter uses of a stream;
* `OutFile`: a file stream, with how far its file may grow;
* `LawfulOut`, `Wrote`: what a full write leaves, for both kinds of stream;
* `writeAll`: writes one after another, as long as none is short.
-/

namespace LibAsdf

/-- The bytes before a position; a gap reads as zeros. -/
def padTo (content : Bytes) (pos : Nat) : Bytes :=
  content.take pos ++ List.replicate (pos - content.length) 0

theorem length_padTo (content : Bytes) (pos : Nat) : (padTo content pos).length = pos := by
  simp only [padTo, List.length_append, List.length_take, List.length_replicate]
  omega

theorem padTo_of_le {content : Bytes} {pos : Nat} (h : pos ≤ content.length) :
    padTo content pos = content.take pos := by
  rw [padTo, Nat.sub_eq_zero_of_le h, List.replicate_zero, List.append_nil]

/-- The content with `bytes` put at a position. -/
def overwrite (content : Bytes) (pos : Nat) (bytes : Bytes) : Bytes :=
  padTo content pos ++ bytes ++ content.drop (pos + bytes.length)

theorem length_overwrite (content : Bytes) (pos : Nat) (bytes : Bytes) :
    pos + bytes.length ≤ (overwrite content pos bytes).length := by
  simp only [overwrite, List.length_append, length_padTo]
  omega

theorem padTo_overwrite (content : Bytes) (pos : Nat) (bytes : Bytes) :
    padTo (overwrite content pos bytes) (pos + bytes.length) = padTo content pos ++ bytes := by
  have size : (padTo content pos ++ bytes).length = pos + bytes.length := by
    rw [List.length_append, length_padTo]
  rw [padTo_of_le (length_overwrite _ _ _), overwrite, ← size, List.take_left]

/-- The operations of a stream that is written to. -/
class OutStream (ω : Type) where
  base : ω → StreamBase
  write : ω → Bytes → Run (Nat × ω)
  tell : ω → Int

/-! ## Files -/

/-- `fwrite` on a file that may grow to `limit` bytes. -/
def FileHandle.fwrite (f : FileHandle) (limit : Nat) (bytes : Bytes) : Nat × FileHandle :=
  let count := min bytes.length (limit - f.pos)
  if count = 0 then (0, f)
  else (count, ⟨overwrite f.content f.pos (bytes.take count), f.pos + count⟩)

/-- A file stream that is written to, and the size that its file may reach. -/
structure OutFile extends FileStream where
  limit : Nat

def fileWrite (s : OutFile) (bytes : Bytes) : Nat × OutFile :=
  if !s.isWriteable then
    (0, { s with toStreamBase := s.toStreamBase.setError .streamReadOnly })
  else
    let (count, file) := s.file.fwrite s.limit bytes
    if count ≠ bytes.length then
      (count, { s with toStreamBase := s.toStreamBase.setError .system, file := file })
    else (count, { s with file := file, filePos := s.filePos + count })

instance : OutStream OutFile where
  base s := s.toStreamBase
  write s bytes := .ret (fileWrite s bytes)
  tell s := fileTell s.toFileStream

instance : OutStream MemStream where
  base s := s.toStreamBase
  write := memWrite
  tell := memTell

/-! ## What writes leave -/

/-- A stream that is written to, as a position in a content. -/
class OutContent (ω : Type) where
  /-- fit to be written to -/
  Open : ω → Prop
  content : ω → Bytes
  pos : ω → Nat

namespace OutContent

variable {ω : Type} [OutContent ω]

/-- The content up to the position. -/
def before (s : ω) : Bytes := padTo (content s) (pos s)

theorem length_before (s : ω) : (before s).length = pos s := length_padTo _ _

/-- `bytes` went to the end of what was before the position. -/
structure Wrote (s : ω) (bytes : Bytes) (t : ω) : Prop where
  ready : Open t
  before_eq : before t = before s ++ bytes
  reached : bytes ≠ [] ∨ pos s ≤ (content s).length → pos t ≤ (content t).length

theorem Wrote.pos_eq {s t : ω} {bytes : Bytes} (h : Wrote s bytes t) :
    pos t = pos s + bytes.length := by
  rw [← length_before, h.before_eq, List.length_append, length_before]

theorem Wrote.refl {s : ω} (h : Open s) : Wrote s [] s :=
  ⟨h, (List.append_nil _).symm, fun some => some.resolve_left (absurd rfl)⟩

theorem Wrote.trans {s t u : ω} {bytes more : Bytes} (h : Wrote s bytes t)
    (h' : Wrote t more u) : Wrote s (bytes ++ more) u where
  ready := h'.ready
  before_eq := by rw [h'.before_eq, h.before_eq, List.append_assoc]
  reached some := by
    by_cases last : more = []
    · rw [last, List.append_nil] at some
      exact h'.reached (.inr (h.reached some))
    · exact h'.reached (.inl last)

/-- The bytes written are found in the content that a write leaves. -/
theorem Wrote.take_content {s t : ω} {bytes : Bytes} (h : Wrote s bytes t) (some : bytes ≠ []) :
    (content t).take (pos t) = before s ++ bytes := by
  rw [← h.before_eq, before, padTo_of_le (h.reached (.inl some))]

end OutContent

open OutContent

class LawfulOut (ω : Type) [OutStream ω] extends OutContent ω where
  tell_eq (s : ω) : Open s → OutStream.tell s = pos s
  pos_le (s : ω) : Open s → pos s ≤ offMax
  write_ends (s : ω) (bytes : Bytes) : Open s → ∃ n t, OutStream.write s bytes = .ret (n, t) ∧
    (n = bytes.length → Wrote s bytes t)

/-- A full `fwrite`: of nothing, or of bytes that the file has room for. -/
theorem fwrite_full {f : FileHandle} {limit : Nat} {bytes : Bytes}
    (h : (f.fwrite limit bytes).1 = bytes.length) :
    bytes = [] ∧ (f.fwrite limit bytes).2 = f ∨
      bytes ≠ [] ∧ f.pos + bytes.length ≤ limit ∧
        (f.fwrite limit bytes).2 = ⟨overwrite f.content f.pos bytes, f.pos + bytes.length⟩ := by
  simp only [FileHandle.fwrite] at h ⊢
  by_cases none : min bytes.length (limit - f.pos) = 0
  · rw [if_pos none] at h ⊢
    exact .inl ⟨List.length_eq_zero_iff.mp h.symm, rfl⟩
  · rw [if_neg none] at h ⊢
    simp only at h
    refine .inr ⟨?_, by omega, ?_⟩
    · rintro rfl
      simp at none
    · simp only [h, List.take_length]

instance : OutContent OutFile where
  Open s := s.isWriteable = true ∧ s.filePos = s.file.pos ∧ s.file.pos ≤ offMax ∧
    s.limit ≤ offMax
  content s := s.file.content
  pos s := s.file.pos

theorem fileTell_of_open {s : OutFile} (h : Open s) : OutStream.tell s = pos s := by
  obtain ⟨-, pos, le, -⟩ := h
  simp only [OutStream.tell, fileTell]
  rw [if_neg (by omega), pos]
  rfl

theorem fileWrite_ends {s : OutFile} (bytes : Bytes) (h : Open s) :
    ∃ n t, OutStream.write s bytes = .ret (n, t) ∧ (n = bytes.length → Wrote s bytes t) := by
  obtain ⟨writeable, pos, le, limit⟩ := h
  have plain : fileWrite s bytes = if (s.file.fwrite s.limit bytes).1 ≠ bytes.length then
      ((s.file.fwrite s.limit bytes).1, { s with
        toStreamBase := s.toStreamBase.setError .system
        file := (s.file.fwrite s.limit bytes).2 })
    else ((s.file.fwrite s.limit bytes).1, { s with
      file := (s.file.fwrite s.limit bytes).2
      filePos := s.filePos + (s.file.fwrite s.limit bytes).1 }) := by
    simp only [fileWrite, writeable, Bool.not_true, Bool.false_eq_true, if_false]
  refine ⟨(fileWrite s bytes).1, (fileWrite s bytes).2, rfl, fun full => ?_⟩
  rw [plain] at full ⊢
  by_cases whole : (s.file.fwrite s.limit bytes).1 = bytes.length
  · rw [if_neg (not_not.mpr whole)]
    rcases fwrite_full whole with ⟨empty, same⟩ | ⟨some, room, moved⟩
    · simp only [whole, same]
      subst empty
      exact ⟨⟨writeable, pos, le, limit⟩, (List.append_nil _).symm,
        fun h => h.resolve_left (absurd rfl)⟩
    · simp only [whole, moved]
      exact ⟨⟨writeable, by rw [pos], Nat.le_trans room limit, limit⟩, padTo_overwrite _ _ _,
        fun _ => length_overwrite _ _ _⟩
  · rw [if_pos whole] at full
    exact absurd full whole

instance : LawfulOut OutFile where
  tell_eq _ := fileTell_of_open
  pos_le _ h := h.2.2.1
  write_ends _ := fileWrite_ends

theorem memWrite_size {s t : MemStream} {bytes : Bytes} {n : Nat} (inside : s.Inside)
    (small : s.size ≤ offMax) (h : memWrite s bytes = .ret (n, t)) : t.size ≤ offMax := by
  have into : ∀ {s t : MemStream} {n : Nat}, s.Inside → s.size ≤ offMax →
      memWriteInto s bytes = .ret (n, t) → t.size ≤ offMax := by
    intro s t n inside small h
    have pos : s.pos ≤ s.size := inside
    simp only [memWriteInto, sizeSub_of_le pos] at h
    obtain ⟨buf, stored, h⟩ := Outcome.bind_eq_ret.mp h
    cases h
    change buf.length ≤ offMax
    rw [length_of_store stored]
    exact small
  simp only [memWrite] at h
  split at h
  · split at h
    · cases h
      exact small
    · rename_i fits
      refine into ?_ ?_ h
      · change s.pos ≤ (s.buf ++ _).length
        have : s.pos ≤ s.buf.length := inside
        rw [List.length_append]
        omega
      · change (s.buf ++ List.replicate bytes.length 0).length ≤ offMax
        have : ¬ s.buf.length + bytes.length > offMax := fits
        rw [List.length_append, List.length_replicate]
        omega
  · exact into inside small h

instance : OutContent MemStream where
  Open s := s.Inside ∧ s.size ≤ offMax
  content s := s.buf
  pos s := s.pos

instance : LawfulOut MemStream where
  tell_eq s h := rfl
  pos_le s h := Nat.le_trans h.1 h.2
  write_ends s bytes h := by
    obtain ⟨inside, small⟩ := h
    obtain ⟨count, le, t, wrote, inside', pos, front⟩ := memWrite_correct inside bytes
    refine ⟨count, t, wrote, fun full => ?_⟩
    subst full
    rw [List.take_length] at front
    refine ⟨⟨inside', memWrite_size inside small wrote⟩, ?_, fun _ => inside'⟩
    change padTo t.buf t.pos = padTo s.buf s.pos ++ bytes
    rw [padTo_of_le inside', padTo_of_le inside, front]

/-! ## Writes one after another -/

section WriteAll

variable {ω : Type} [OutStream ω]

/-- One `WRITE_CHECK` after another: a short write ends them. -/
def writeAll (out : ω) : List Bytes → Run (Bool × ω)
  | [] => return (true, out)
  | bytes :: more => do
    let (n, out) ← OutStream.write out bytes
    if n ≠ bytes.length then
      return (false, out)
    writeAll out more

variable [LawfulOut ω]

open LawfulOut

theorem writeAll_wrote {s : ω} (h : Open s) (parts : List Bytes) :
    Outcome.wp (fun _ => False) False (fun r => r.1 = true → Wrote s parts.flatten r.2)
      (writeAll s parts) := by
  induction parts generalizing s with
  | nil => exact fun _ => .refl h
  | cons bytes more ih =>
    obtain ⟨n, t, wrote, full⟩ := write_ends s bytes h
    simp only [writeAll, wrote, Outcome.ret_bind]
    split
    · intro failed
      cases failed
    · rename_i whole
      have step := full (not_not.mp whole)
      apply Outcome.wp_mono (ih step.ready)
      intro r rest ok
      rw [List.flatten_cons]
      exact step.trans (rest ok)

end WriteAll

end LibAsdf
