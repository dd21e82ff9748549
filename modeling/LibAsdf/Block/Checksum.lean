import LibAsdf.Block.Access
import LibAsdf.Block.RoundTrip

/-!
# Block checksums

The checksum that `asdf_block_info_write` leaves in a block's header, and
`asdf_block_checksum_verify` of the block as it is read again.

* `LibrarySoftware`, `blockChecksumVerify`: the check, with the exception it makes
  for another library;
* `LawfulMem`: regions of the two kinds of streams;
* `ChecksumRight`, `Checks`: what the writer promises, and what the check finds;
* `checksumVerify_iff`: when the check of a written block succeeds;
* `checksum_written`: when a written block keeps the promise.
-/

namespace LibAsdf

/-- The `asdf_library` of a file's metadata, as far as the check looks at it. -/
structure LibrarySoftware where
  name : Bytes
  major : Nat
  deriving DecidableEq, Repr

def pythonChecksumBugMajorVersion : Nat := 5

/-- `asdf`. -/
def pythonLibraryName : Bytes := [0x61, 0x73, 0x64, 0x66]

/-- `asdf_library_has_checksum_bug`. -/
def libraryHasChecksumBug (software : LibrarySoftware) : Bool :=
  software.name == pythonLibraryName && software.major ≤ pythonChecksumBugMajorVersion

/-- What `asdf_get_meta` gives: nothing where it fails, or metadata that may have no
`asdf_library`. -/
abbrev FileMeta := Option (Option LibrarySoftware)

section Verify

variable {σ : Type} [OpenMem σ]

/-- The bytes that a pointer shows; `fill` is what a destination is filled with. -/
def DataView.read (fill : Codec → Bytes → Nat → Bytes) : DataView → Bytes
  | .bytes mem => mem
  | .filling codec stored size => fill codec stored size

/-- The data that the checksum is computed of. -/
def checksumData (env : AccessEnv σ) (library : FileMeta) (block : DataBlock) :
    AccessRun (Access × DataBlock) :=
  let (comp, block) := compressionOrig block
  if comp ≠ [] then
    match library with
    | some none => .fault .null
    | some (some software) =>
      if libraryHasChecksumBug software then asdfBlockData env block else asdfBlockDataRaw env block
    | none => asdfBlockDataRaw env block
  else asdfBlockDataRaw env block

/-- `asdf_block_checksum_verify`. -/
def blockChecksumVerify (md5 : Option Md5) (fill : Codec → Bytes → Nat → Bytes)
    (env : AccessEnv σ) (library : FileMeta) (block : DataBlock) : AccessRun Bool :=
  match md5 with
  | none => return true
  | some md5 => do
    let (access, block) ← checksumData env library block
    match access.data with
    | none => return false
    | some data => return decide (block.info.header.checksum = md5.digest (data.read fill))

end Verify

/-- A region of a stream's content is what `open_mem` shows, but an empty one may
be refused. -/
class LawfulMem (σ : Type) [StreamOps σ] [LawfulRead σ] [OpenMem σ] where
  Mappable : σ → Prop
  opens (pageSize : Nat) (s : σ) (offset size : Nat) : Mappable s →
    offset + size ≤ (ReadContent.content s).length → offset + size ≤ offMax →
    OpenMem.openMem pageSize s offset size =
        .ret (some (((ReadContent.content s).drop offset).take size)) ∨
      size = 0 ∧ OpenMem.openMem pageSize s offset size = .ret none

instance : LawfulMem FileStream where
  Mappable s := s.isSeekable = true
  opens pageSize s offset size seekable inside small := by
    have asserts : assert s.isSeekable = (.ret () : Run Unit) := if_pos seekable
    have inside : offset + size ≤ s.file.content.length := inside
    have whole : min size (s.file.content.length - offset) = size := Nat.min_eq_left (by omega)
    change fileOpenMem pageSize s offset size = _ ∨ _ ∧ fileOpenMem pageSize s offset size = _
    unfold fileOpenMem
    rw [asserts, Outcome.ret_bind]
    dsimp only
    rw [if_neg (by omega), whole]
    by_cases empty : size + offset % pageSize = 0
    · exact .inr ⟨by omega, if_pos empty⟩
    · exact .inl (if_neg empty)

instance : LawfulMem MemStream where
  Mappable _ := True
  opens pageSize s offset size _ inside small := by
    have inside : offset + size ≤ s.buf.length := inside
    have max : offMax < sizeMax := by decide
    change Outcome.ret (memOpenMem s offset size) = _ ∨ _
    apply Or.inl
    unfold memOpenMem
    have size' : s.size = s.buf.length := rfl
    rw [if_neg (by omega), if_neg (by omega)]
    rfl

/-! ## The check of a block -/

/-- The check computes the digest of the stored bytes. -/
def LooksAtStored (library : FileMeta) (compression : Bytes) : Prop :=
  compressionName compression = [] ∨ library = none ∨
    ∃ software, library = some (some software) ∧ libraryHasChecksumBug software = false

/-- The check computes the digest of what the stored bytes decompress to. -/
def LooksAtData (library : FileMeta) (compression : Bytes) : Prop :=
  compressionName compression ≠ [] ∧
    ∃ software, library = some (some software) ∧ libraryHasChecksumBug software = true

section Check

variable {σ : Type} [OpenMem σ] {md5 : Md5} {fill : Codec → Bytes → Nat → Bytes}
  {env : AccessEnv σ} {library : FileMeta} {info : BlockRecord}

/-- Whether the digest of what an access shows is the one in the header. -/
def digestMatches (md5 : Md5) (fill : Codec → Bytes → Nat → Bytes) (checksum : Bytes)
    (access : Access) : Bool :=
  match access.data with
  | none => false
  | some data => decide (checksum = md5.digest (data.read fill))

/-- A new handle that has been asked for its compression. -/
def namedHandle (info : BlockRecord) : DataBlock :=
  { blockOpenData info with compression := some (compressionName info.header.compression) }

theorem consistent_named : Consistent env info (namedHandle info) where
  record := rfl
  name := by
    rintro name ⟨⟩
    rfl
  memory _ _ := ⟨rfl, fun some => absurd rfl some⟩
  stream _ := .inl ⟨rfl, fun some => absurd rfl some⟩

/-- The rest of the check, after an access to the data. -/
theorem verify_access (decompress : Bool) :
    (blockDataImpl env (namedHandle info) decompress >>= fun r =>
      match r.1.data with
      | none => Outcome.ret false
      | some data => .ret (decide (r.2.info.header.checksum = md5.digest (data.read fill)))) =
      (accessOf env info decompress >>= fun access =>
        .ret (digestMatches md5 fill info.header.checksum access)) := by
  have answers := blockDataImpl_answers (consistent_named : Consistent env info _) decompress
  rw [← answers.answer]
  cases run : blockDataImpl env (namedHandle info) decompress with
  | fault e => rfl
  | timeout => rfl
  | ret r =>
    obtain ⟨⟨data, size⟩, block⟩ := r
    have record : block.info = info := (answers.consistent _ run).record
    cases data with
    | none => rfl
    | some data =>
      change Outcome.ret (decide (block.info.header.checksum = _)) = _
      rw [record]
      rfl

/-- The check, with the access to the data that it makes. -/
theorem verify_of_data {decompress : Bool}
    (data : checksumData env library (blockOpenData info) =
      blockDataImpl env (namedHandle info) decompress) :
    blockChecksumVerify (some md5) fill env library (blockOpenData info) =
      (accessOf env info decompress >>= fun access =>
        .ret (digestMatches md5 fill info.header.checksum access)) := by
  rw [← verify_access decompress, ← data]
  rfl

theorem verify_stored (looks : LooksAtStored library info.header.compression) :
    blockChecksumVerify (some md5) fill env library (blockOpenData info) =
      (accessOf env info false >>= fun access =>
        .ret (digestMatches md5 fill info.header.checksum access)) := by
  apply verify_of_data
  by_cases plain : compressionName info.header.compression = []
  · exact if_neg (not_not.mpr plain)
  · obtain plain' | rfl | ⟨software, rfl, fine⟩ := looks
    · exact absurd plain' plain
    · exact if_pos plain
    · have raw : (if libraryHasChecksumBug software = true then
          asdfBlockData env (namedHandle info) else asdfBlockDataRaw env (namedHandle info)) =
            asdfBlockDataRaw env (namedHandle info) := by
        rw [fine]
        rfl
      exact (if_pos plain).trans raw

theorem verify_data (looks : LooksAtData library info.header.compression) :
    blockChecksumVerify (some md5) fill env library (blockOpenData info) =
      (accessOf env info true >>= fun access =>
        .ret (digestMatches md5 fill info.header.checksum access)) := by
  obtain ⟨named, software, rfl, bug⟩ := looks
  apply verify_of_data
  exact (if_pos named).trans (if_pos bug)

/-- Metadata without an `asdf_library` is looked into. -/
theorem verify_null (named : compressionName info.header.compression ≠ []) :
    blockChecksumVerify (some md5) fill env (some none) (blockOpenData info) = .fault .null := by
  have data : checksumData env (some none) (blockOpenData info) = .fault .null := if_pos named
  unfold blockChecksumVerify
  dsimp only
  rw [data]
  rfl

/-- One of the three. -/
theorem looks_cases (library : FileMeta) (compression : Bytes) :
    LooksAtStored library compression ∨ LooksAtData library compression ∨
      compressionName compression ≠ [] ∧ library = some none := by
  by_cases plain : compressionName compression = []
  · exact .inl (.inl plain)
  · cases library with
    | none => exact .inl (.inr (.inl rfl))
    | some software =>
      cases software with
      | none => exact .inr (.inr ⟨plain, rfl⟩)
      | some software =>
        cases bug : libraryHasChecksumBug software with
        | true => exact .inr (.inl ⟨plain, software, rfl, bug⟩)
        | false => exact .inl (.inr (.inr ⟨software, rfl, bug⟩))

theorem not_looksAtStored (named : compressionName info.header.compression ≠ []) :
    ¬ LooksAtStored (some none) info.header.compression := by
  rintro (plain | none | ⟨software, known, -⟩)
  · exact named plain
  · cases none
  · cases known

theorem not_looksAtStored_of_data {compression : Bytes} (looks : LooksAtData library compression) :
    ¬ LooksAtStored library compression := by
  obtain ⟨named, software, rfl, bug⟩ := looks
  rintro (plain | none | ⟨software', known, fine⟩)
  · exact named plain
  · cases none
  · cases known
    rw [bug] at fine
    cases fine

/-- When the check of a block with the right checksum succeeds: the stored bytes are
looked at, and can be; or what they decompress to has the same digest. -/
def Checks (md5 : Md5) (fill : Codec → Bytes → Nat → Bytes) (env : AccessEnv σ)
    (library : FileMeta) (info : BlockRecord) (region : Option Bytes) (data : Bytes) : Prop :=
  LooksAtStored library info.header.compression ∧ region ≠ none ∨
  LooksAtData library info.header.compression ∧
    ∃ view size, accessOf env info true = .ret ⟨some view, size⟩ ∧
      md5.digest (view.read fill) = md5.digest data

theorem checksumVerify_iff {stream : σ} {region : Option Bytes} {data : Bytes}
    (unowned : info.data = none) (placed : ¬ info.dataPos < 0)
    (file : env.file = some (some stream))
    (opens : OpenMem.openMem env.comp.pageSize stream info.dataPos.toNat info.header.usedSize =
      .ret region) (same : region = none ∨ region = some data)
    (checksum : info.header.checksum = md5.digest data) :
    blockChecksumVerify (some md5) fill env library (blockOpenData info) = .ret true ↔
      Checks md5 fill env library info region data := by
  obtain looks | looks | ⟨named, rfl⟩ := looks_cases library info.header.compression
  · have raw : accessOf env info false =
        .ret ⟨region.map .bytes, some ((region.map List.length).getD 0)⟩ := by
      unfold accessOf
      rw [unowned, file]
      refine (if_neg placed).trans ?_
      unfold streamAccess
      rw [opens]
      rfl
    have other : ¬ LooksAtData library info.header.compression := fun data =>
      not_looksAtStored_of_data data looks
    rw [verify_stored looks, raw]
    unfold Checks
    obtain rfl | rfl := same
    · apply iff_of_false nofun
      rintro (⟨-, some⟩ | ⟨data, -⟩)
      · exact some rfl
      · exact other data
    · apply iff_of_true _ (.inl ⟨looks, Option.some_ne_none _⟩)
      exact congrArg Outcome.ret (decide_eq_true checksum)
  · have other := not_looksAtStored_of_data looks
    rw [verify_data looks]
    unfold Checks
    constructor
    · intro run
      obtain ⟨access, answer, found⟩ := Outcome.bind_eq_ret.mp run
      obtain ⟨view, size⟩ := access
      cases view with
      | none => cases found
      | some view =>
        have found : info.header.checksum = md5.digest (view.read fill) :=
          of_decide_eq_true (Outcome.ret.inj found)
        exact .inr ⟨looks, view, size, answer, found.symm.trans checksum⟩
    · rintro (⟨stored, -⟩ | ⟨-, view, size, answer, digest⟩)
      · exact absurd stored other
      · rw [answer]
        exact congrArg Outcome.ret (decide_eq_true (checksum.trans digest.symm))
  · rw [verify_null named]
    apply iff_of_false nofun
    rintro (⟨stored, -⟩ | ⟨⟨-, software, known, -⟩, -⟩)
    · exact not_looksAtStored named stored
    · cases known

end Check

/-! ## What the writer leaves -/

def noChecksum : Bytes := List.replicate 16 0

/-- The checksum is of the stored bytes, or there is none. -/
def ChecksumRight (md5 : Md5) (header : BlockHeader) (data : Bytes) : Prop :=
  header.checksum = noChecksum ∨ header.checksum = md5.digest data

/-- The writer computes a checksum. -/
def Computes (build : Option Md5) (checksum : Bool) : Prop :=
  build ≠ none ∧ checksum = true

/-- The header before the write has no checksum and none is computed; or it is
computed, or the header has that of the stored bytes, and the check finds it so,
unless it is all zeros. -/
def KeepsChecksum (md5 : Md5) (build : Option Md5) (checksum : Bool) (header : BlockHeader)
    (data : Bytes) (checks : Prop) : Prop :=
  ¬ Computes build checksum ∧ header.checksum = noChecksum ∨
    (Computes build checksum ∨ header.checksum = md5.digest data) ∧
      (md5.digest data = noChecksum ∨ checks)

theorem setChecksum_checksum (md5 : Md5) {build : Option Md5} (built : ∀ m, build = some m → m = md5)
    (checksum : Bool) (block : BlockRecord) (data : Bytes) :
    (Computes build checksum ∧
      (block.setChecksum build checksum data).header.checksum = md5.digest data) ∨
    (¬ Computes build checksum ∧
      (block.setChecksum build checksum data).header.checksum = block.header.checksum) := by
  unfold BlockRecord.setChecksum Computes
  cases build with
  | none => exact .inr ⟨fun h => h.1 rfl, rfl⟩
  | some m =>
    cases checksum with
    | false => exact .inr ⟨fun h => (nomatch h.2), rfl⟩
    | true => exact .inl ⟨⟨Option.some_ne_none m, rfl⟩, by rw [built m rfl]; rfl⟩

theorem keepsChecksum_iff {md5 : Md5} {build : Option Md5} {checksum : Bool}
    {header written : BlockHeader} {data : Bytes} {verifies checks : Prop}
    (taken : (Computes build checksum ∧ written.checksum = md5.digest data) ∨
      (¬ Computes build checksum ∧ written.checksum = header.checksum))
    (verify : written.checksum = md5.digest data → (verifies ↔ checks)) :
    ChecksumRight md5 written data ∧ (written.checksum ≠ noChecksum → verifies) ↔
      KeepsChecksum md5 build checksum header data checks := by
  unfold ChecksumRight KeepsChecksum
  obtain ⟨computes, digest⟩ | ⟨computes, kept⟩ := taken
  · have verify := verify digest
    rw [digest]
    simp only [computes, not_true_eq_false, false_and, true_or, or_true, true_and, false_or]
    rw [verify]
    exact imp_iff_or_not.trans (or_comm.trans (by rw [not_not]))
  · rw [kept] at verify ⊢
    simp only [computes, not_false_eq_true, true_and, false_or]
    by_cases zero : header.checksum = noChecksum
    · simp only [zero, true_or, ne_eq, not_true_eq_false, false_imp_iff, and_self]
    · simp only [zero, false_or, ne_eq, not_false_eq_true, true_imp_iff]
      constructor
      · rintro ⟨digest, verifies⟩
        exact ⟨digest, .inr ((verify digest).mp verifies)⟩
      · rintro ⟨digest, none | checks⟩
        · exact absurd (digest.trans none) zero
        · exact ⟨digest, (verify digest).mpr checks⟩

section Written

variable {σ ω ρ : Type} [OpenMem σ] [OutStream ω] [LawfulOut ω] [StreamOps ρ] [LawfulRead ρ]
  [OpenMem ρ] [LawfulMem ρ]

open OutContent ReadContent

/-- A block that was written keeps its promise, as it is read again, just if its
header had no checksum and none is computed; or it is computed, or the header had
the one of the bytes that are stored, and the check looks at those bytes, or at
what has the same digest. -/
theorem checksum_written (md5 : Md5) {file : WriterFile σ} {heap : Heap}
    {block block' : BlockRecord} {out out' : ω} {checksum : Bool}
    (built : ∀ m, file.md5 = some m → m = md5) (ready : Open out) (fits : block.header.Fits)
    (written : blockInfoWrite file heap block out checksum = .ret (true, block', out'))
    {stream : ρ} (sane : Sane stream) (place : ReadContent.pos stream = OutContent.pos out)
    (same : (ReadContent.content stream).take (OutContent.pos out') =
      (OutContent.content out').take (OutContent.pos out'))
    (view : blockMagic.length ≤ inView stream) (calm : errorGet stream = none)
    (mappable : LawfulMem.Mappable stream) {env : AccessEnv ρ}
    (input : env.file = some (some stream)) (fill : Codec → Bytes → Nat → Bytes)
    (library : FileMeta) (outBlock : BlockInfo) :
    ∃ stored info stream' region, StoredAs file heap block stored ∧
      blockInfoRead outBlock stream = .ret (true, info, stream') ∧
      OpenMem.openMem env.comp.pageSize stream info.dataPos.toNat info.header.usedSize =
        .ret region ∧
      (ChecksumRight md5 info.header stored.data ∧ (info.header.checksum ≠ noChecksum →
          blockChecksumVerify (some md5) fill env library (blockOpenData (.ofInfo info)) =
            .ret true) ↔
        KeepsChecksum md5 file.md5 checksum block.header stored.data
          (Checks md5 fill env library (.ofInfo info) region stored.data)) := by
  obtain ⟨stored, info, stream', as, read, reads, header, pos, data, padding, ends⟩ :=
    written_block_read ready fits written ⟨sane, place, same⟩ view calm outBlock
  obtain ⟨stored', as', wrote, record⟩ := blockInfoWrite_wrote ready fits.compression
    fits.checksum written
  cases as.unique as'
  have taken := setChecksum_checksum md5 built checksum block stored.data
  have checksum' : info.header.checksum =
      (block.setChecksum file.md5 checksum stored.data).header.checksum := by
    rw [reads.checksum, record.eq]
    rfl
  rw [← checksum'] at taken
  have inside : info.dataPos.toNat + info.header.usedSize ≤ OutContent.pos out' := by
    have allocated := reads.allocatedSize
    have used := reads.usedSize
    have dataPos := reads.dataPos
    omega
  have last : OutContent.pos out' ≤ offMax := LawfulOut.pos_le out' wrote.ready
  have length : OutContent.pos out' ≤ (ReadContent.content stream).length := by
    have width := length_blockImage (as.length_compression fits.compression) record.checksum_length
    have held : blockImage block'.header stored ≠ [] := by
      intro empty
      rw [empty, List.length_nil] at width
      have size : blockHeaderFullSize = 54 := rfl
      omega
    have reached := wrote.reached (.inl held)
    have lengths := congrArg List.length same
    rw [List.length_take, List.length_take] at lengths
    omega
  have placed : ¬ info.dataPos < 0 := by
    have dataPos := reads.dataPos
    omega
  have opens := LawfulMem.opens env.comp.pageSize stream info.dataPos.toNat info.header.usedSize
    mappable (Nat.le_trans inside length) (Nat.le_trans inside last)
  rw [data] at opens
  have region : ∃ region, OpenMem.openMem env.comp.pageSize stream info.dataPos.toNat
      info.header.usedSize = .ret region ∧ (region = none ∨ region = some stored.data) := by
    obtain opens | ⟨-, opens⟩ := opens
    · exact ⟨_, opens, .inr rfl⟩
    · exact ⟨_, opens, .inl rfl⟩
  obtain ⟨region, opens, which⟩ := region
  refine ⟨stored, info, stream', region, as, read, opens, ?_⟩
  apply keepsChecksum_iff taken
  intro digest
  exact checksumVerify_iff rfl placed input opens which digest

end Written

/-! ## A checksum of other bytes -/

/-- A digest that is always the same. -/
def constantMd5 : Md5 := ⟨fun _ => List.replicate 16 2, fun _ => rfl⟩

def checkingFile : WriterFile MemStream := { sampleFile with md5 := some constantMd5 }

/-- The sample block with the checksum that it was read with, before its data was set. -/
def staleRecord : BlockRecord :=
  { sampleRecord with header := { sampleHeader with checksum := List.replicate 16 1 } }

def staleContent : Bytes := 7 :: blockImage staleRecord.header ⟨[1, 2, 3], noCompression⟩

/-- With checksums switched off, the header keeps one of other bytes. -/
theorem stale_checksum_kept :
    blockInfoWrite checkingFile sampleHeap staleRecord { streamFromMalloc [7] with pos := 1 } false =
        .ret (true, (staleRecord.setHeaderPos 1).setDataPos 55,
          { streamFromMalloc staleContent with pos := 60 }) ∧
      ¬ ChecksumRight constantMd5 staleRecord.header [1, 2, 3] := by
  refine ⟨rfl, ?_⟩
  rintro (none | digest)
  · exact absurd none (by decide)
  · exact absurd digest (by decide)

def staleEnv : AccessEnv MemStream where
  file := some (some { streamFromMemory staleContent with pos := 1 })
  heap := ⟨[]⟩
  comp := grantingEnv

theorem checksum_written_stale : ∃ stored info stream' region,
    StoredAs checkingFile sampleHeap staleRecord stored ∧
    blockInfoRead (.blank 0) { streamFromMemory staleContent with pos := 1 } =
      .ret (true, info, stream') ∧
    (ChecksumRight constantMd5 info.header stored.data ∧
      (info.header.checksum ≠ noChecksum → blockChecksumVerify (some constantMd5)
        (fun _ _ _ => []) staleEnv none (blockOpenData (.ofInfo info)) = .ret true) ↔
      KeepsChecksum constantMd5 (some constantMd5) false staleRecord.header stored.data
        (Checks constantMd5 (fun _ _ _ => []) staleEnv none (.ofInfo info) region stored.data)) := by
  have fits : staleRecord.header.Fits :=
    ⟨by decide, by decide, rfl, by decide, by decide, by decide, rfl⟩
  have sane : MemStream.Inside { streamFromMemory staleContent with pos := 1 } := by
    unfold MemStream.Inside
    decide
  have inside : MemStream.Inside { streamFromMalloc [7] with pos := 1 } := by
    unfold MemStream.Inside
    decide
  obtain ⟨stored, info, stream', region, as, read, -, checks⟩ := checksum_written constantMd5
    (show ∀ m, checkingFile.md5 = some m → m = constantMd5 from fun m eq => by cases eq; rfl)
    (show OutContent.Open ({ streamFromMalloc [7] with pos := 1 } : MemStream) from
      ⟨inside, by decide⟩)
    fits
    (show blockInfoWrite checkingFile sampleHeap staleRecord _ false =
      .ret (true, _, { streamFromMalloc staleContent with pos := 60 }) from rfl)
    (show ReadContent.Sane ({ streamFromMemory staleContent with pos := 1 } : MemStream) from sane)
    rfl rfl (show 4 ≤ 59 by decide) rfl trivial (show staleEnv.file = some (some _) from rfl)
    (fun _ _ _ => []) none (.blank 0)
  exact ⟨stored, info, stream', region, as, read, checks⟩

end LibAsdf
