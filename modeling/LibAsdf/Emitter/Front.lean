import LibAsdf.Emitter.Recorder

/-!
# What is written first

The bytes before the blocks, and the first of a block's.

* `writeAll_recorder`, `fyOutput_recorder`: writes that are recorded;
* `Begun`, `emitUntil_begun`: an emitter that has come up to the blocks;
* `emitterEmit_magic`: the blocks begin with the magic;
* `Utf8Leads`: text that the magic is not in.
-/

namespace LibAsdf

/-- The bytes of the version comments. -/
def versionComments : Bytes :=
  asdfVersionComment ++ asdfVersionDefault ++ [newline] ++
    (asdfStandardComment ++ asdfStandardDefault ++ [newline])

theorem writeAll_recorder (s : Recorder) (parts : List Bytes) :
    ∃ s', writeAll s parts = .ret (true, s') ∧ s'.bytes = s.bytes ++ parts.flatten := by
  induction parts generalizing s with
  | nil => exact ⟨s, rfl, (List.append_nil _).symm⟩
  | cons bytes more ih =>
    obtain ⟨s', rest, eq⟩ := ih (s.call (.write bytes))
    refine ⟨s', ?_, ?_⟩
    · refine Eq.trans ?_ rest
      exact if_neg (not_not.mpr rfl)
    · rw [eq, s.bytes_write, List.append_assoc]
      rfl

theorem fyOutput_recorder (s : Recorder) (pieces : List Bytes) :
    ∃ s', fyOutput s pieces = .ret (true, s') ∧ s'.bytes = s.bytes ++ pieces.flatten := by
  induction pieces generalizing s with
  | nil => exact ⟨s, rfl, (List.append_nil _).symm⟩
  | cons piece more ih =>
    obtain ⟨s', rest, eq⟩ := ih (s.call (.write piece))
    refine ⟨s', ?_, ?_⟩
    · change (fyOutput (s.call (.write piece)) more >>= _) = _
      rw [rest, Outcome.ret_bind]
      dsimp only
      rw [decide_eq_true rfl]
      rfl
    · rw [eq, s.bytes_write, List.append_assoc]
      rfl

theorem emitVersion_recorder (s : Recorder) (comment version : Bytes) (next : EmitterState) :
    ∃ s', emitVersion comment version next s = .ret (next, s') ∧
      s'.bytes = s.bytes ++ (comment ++ version ++ [newline]) := by
  obtain ⟨s', written, eq⟩ := writeAll_recorder s [comment, version, [newline]]
  refine ⟨s'.call .flush, ?_, ?_⟩
  · unfold emitVersion
    rw [written]
    rfl
  · rw [s'.bytes_flush, eq, List.append_assoc comment]
    rfl

section Begun

variable {σ : Type} [OpenMem σ] {env : EmitterEnv σ} {blocks : BlockFile}

/-- The text of the tree, if any. -/
def TreeText (yaml : YamlEmitter) (bytes : Bytes) : Prop :=
  bytes = [] ∨ ∃ text, yaml.tree = some text ∧ text.whole = true ∧ bytes = text.pieces.flatten

/-- What has been written as the emitter comes to a state. -/
def FrontBytes (yaml : YamlEmitter) (bytes : Bytes) : EmitterState → Prop
  | .initial => bytes = []
  | .asdfVersion => bytes = []
  | .standardVersion => bytes = asdfVersionComment ++ asdfVersionDefault ++ [newline]
  | .tree => bytes = versionComments
  | .blocks => ∃ text, TreeText yaml text ∧ bytes = versionComments ++ text
  | _ => True

/-- An emitter that has not been past the blocks. -/
structure Begun (yaml : YamlEmitter) (blocks : BlockFile) (e : Emitter Recorder) : Prop where
  blocks : e.blocks = blocks
  ends : e.EndsDone
  front : FrontBytes yaml e.stream.bytes e.state

theorem emitTree_recorder {yaml : YamlEmitter} {file : EmitterFile} {s : Recorder}
    {r : EmitterState × EmitterFile × Recorder} (run : emitTree yaml file s = .ret r)
    (ok : r.1 ≠ .error) : ∃ text, TreeText yaml text ∧ r.2.2.bytes = s.bytes ++ text := by
  unfold emitTree at run
  dsimp only at run
  split at run
  · cases run
    exact ⟨[], .inl rfl, (List.append_nil _).symm⟩
  · split at run
    · rename_i text _ tree
      obtain ⟨s', written, eq⟩ := fyOutput_recorder s text.pieces
      unfold fyEmitDocument at run
      rw [written] at run
      cases run
      cases whole : text.whole with
      | false =>
        rw [whole] at ok
        exact absurd rfl ok
      | true => exact ⟨_, .inr ⟨text, tree, whole, rfl⟩, eq⟩
    · cases run
      exact absurd rfl ok

/-- A state before the blocks. -/
theorem emitState_begun {e : Emitter Recorder} {r : EmitterState × Emitter Recorder}
    (h : Begun env.yaml blocks e) (before : e.state ≠ .blocks) (going : e.done = false)
    (run : emitState env e = .ret r) :
    r.2.blocks = blocks ∧ FrontBytes env.yaml r.2.stream.bytes r.1 := by
  obtain ⟨file, blocks', state, done, s⟩ := e
  obtain ⟨rfl, ends, front⟩ := h
  cases state with
  | initial =>
    obtain ⟨file', eq | eq⟩ := emitState_initial env ⟨file, blocks', .initial, done, s⟩ rfl
    · cases eq.symm.trans run
      exact ⟨rfl, front⟩
    · cases eq.symm.trans run
      exact ⟨rfl, trivial⟩
  | asdfVersion =>
    obtain ⟨s', written, eq⟩ := emitVersion_recorder s asdfVersionComment asdfVersionDefault
      .standardVersion
    have run : (emitVersion asdfVersionComment asdfVersionDefault .standardVersion s >>= _) =
      .ret r := run
    rw [written] at run
    cases run
    refine ⟨rfl, eq.trans ?_⟩
    have front : s.bytes = [] := front
    rw [front, List.nil_append]
  | standardVersion =>
    obtain ⟨s', written, eq⟩ := emitVersion_recorder s asdfStandardComment asdfStandardDefault .tree
    have run : (emitVersion asdfStandardComment asdfStandardDefault .tree s >>= _) = .ret r := run
    rw [written] at run
    cases run
    refine ⟨rfl, eq.trans ?_⟩
    have front : s.bytes = asdfVersionComment ++ asdfVersionDefault ++ [newline] := front
    rw [front]
    rfl
  | tree =>
    obtain ⟨r', tree, run⟩ := Outcome.bind_eq_ret.mp run
    cases run
    refine ⟨rfl, ?_⟩
    obtain next | failed := emitTree_next tree
    · obtain ⟨text, is, eq⟩ := emitTree_recorder tree (by rw [next]; decide)
      have front : s.bytes = versionComments := front
      rw [front] at eq
      change FrontBytes _ r'.2.2.bytes r'.1
      rw [next]
      exact ⟨text, is, eq⟩
    · change FrontBytes _ r'.2.2.bytes r'.1
      rw [failed]
      trivial
  | blocks => exact absurd rfl before
  | blockIndex =>
    obtain ⟨r', index, run⟩ := Outcome.bind_eq_ret.mp run
    cases run
    refine ⟨rfl, ?_⟩
    change FrontBytes _ r'.2.bytes r'.1
    obtain next | failed := emitBlockIndex_next index
    · rw [next]
      trivial
    · rw [failed]
      trivial
  | «end» | error =>
    cases run
    exact ⟨rfl, trivial⟩

theorem emitOne_begun {e e' : Emitter Recorder} (h : Begun env.yaml blocks e)
    (before : e.state ≠ .blocks) (going : e.done = false) (run : emitOne env e = .ret e') :
    Begun env.yaml blocks e' := by
  have ends := emitOne_endsDone going run
  obtain ⟨r, state, run⟩ := Outcome.bind_eq_ret.mp run
  cases run
  obtain ⟨same, front⟩ := emitState_begun h before going state
  exact ⟨same, ends, front⟩

/-- What is written up to the blocks. -/
theorem emitUntil_begun {e e' : Emitter Recorder} (h : Begun env.yaml blocks e)
    (run : emitUntil env .blocks e = .ret e') : Begun env.yaml blocks e' := by
  have step (e : Emitter Recorder) (h : Begun env.yaml blocks e) :
      Outcome.wp (fun _ => True) True
        (Outcome.Round (Begun env.yaml blocks) (Begun env.yaml blocks)) (emitRound env .blocks e) := by
    unfold emitRound
    split
    · exact h
    · rename_i stops
      rw [Bool.or_eq_true, not_or] at stops
      obtain ⟨going, before⟩ := stops
      cases one : emitOne env e with
      | ret e' =>
        exact emitOne_begun h (fun eq => before (decide_eq_true eq)) (Bool.eq_false_iff.mpr going) one
      | fault f => trivial
      | timeout => trivial
  exact Outcome.wp_of_ret (Outcome.wp_loop step 8 e h) run

theorem begun_create (yaml : YamlEmitter) (file : EmitterFile) (blocks : BlockFile) :
    Begun yaml blocks (emitterCreate file blocks ⟨[]⟩) where
  blocks := rfl
  ends := iff_of_false nofun (by rintro (h | h) <;> cases h)
  front := rfl

end Begun

/-! ## The first block -/

section Magic

variable {s : Recorder}

/-- A record that has been added to has more bytes. -/
theorem Recorder.bytes_of_grows {s s' : Recorder} (h : ∃ more, s'.calls = s.calls ++ more) :
    ∃ rest, s'.bytes = s.bytes ++ rest := by
  obtain ⟨more, eq⟩ := h
  refine ⟨writtenBytes more, ?_⟩
  unfold Recorder.bytes
  rw [eq, writtenBytes_append]

/-- What is written of a block begins with the magic. -/
def BeginsBlock (s s' : Recorder) : Prop := ∃ rest, s'.bytes = s.bytes ++ (blockMagic ++ rest)

theorem BeginsBlock.more {s s₁ s₂ : Recorder} (h : BeginsBlock s s₁)
    (more : ∃ more, s₂.calls = s₁.calls ++ more) : BeginsBlock s s₂ := by
  obtain ⟨rest, eq⟩ := h
  obtain ⟨rest', eq'⟩ := Recorder.bytes_of_grows more
  refine ⟨rest ++ rest', ?_⟩
  rw [eq', eq, List.append_assoc, List.append_assoc]

theorem writeStored_magic {md5 : Option Md5} {checksum : Bool} {block : BlockRecord}
    {stored : BlockStored} {r : Bool × BlockRecord × Recorder}
    (run : writeStored md5 checksum block s stored = .ret r) : BeginsBlock s r.2.2 := by
  obtain ⟨⟨ok, s₁⟩, first, rest⟩ := Outcome.bind_eq_ret.mp run
  obtain ⟨_, written, eq⟩ := writeAll_recorder s _
  cases written.symm.trans first
  have begins : BeginsBlock s s₁ := ⟨_, eq⟩
  apply begins.more
  obtain ⟨⟨ok, s₂⟩, second, rest⟩ := Outcome.bind_eq_ret.mp rest
  obtain ⟨more, eq⟩ := (writeAll_follows _ recorder_follower rfl).grows _ second
  cases ok with
  | false =>
    cases rest
    exact ⟨more, eq⟩
  | true =>
    obtain ⟨more', eq'⟩ := (writeData_follows _ stored recorder_follower rfl).grows _ rest
    refine ⟨more ++ more', eq'.trans ?_⟩
    exact (congrArg (· ++ more') eq).trans (List.append_assoc _ _ _)

variable {σ : Type} [OpenMem σ] {env : EmitterEnv σ}

theorem blockInfoWrite_magic {file : WriterFile σ} {heap : Heap} {block block' : BlockRecord}
    {checksum : Bool} {s' : Recorder}
    (run : blockInfoWrite file heap block s checksum = .ret (true, block', s')) :
    BeginsBlock s s' := by
  obtain ⟨_, -, run⟩ := Outcome.bind_eq_ret.mp run
  obtain ⟨src, -, run⟩ := Outcome.bind_eq_ret.mp run
  cases src with
  | none => cases run
  | some src =>
    obtain ⟨stored, -, run⟩ := Outcome.bind_eq_ret.mp run
    cases stored with
    | none => cases run
    | some stored => exact writeStored_magic run

theorem emitFlushed_magic {checksum : Bool} {block : BlockRecord} {more infos : List BlockRecord}
    {s' : Recorder} (run : emitFlushed env checksum (block :: more) s = .ret (true, infos, s')) :
    BeginsBlock s s' := by
  obtain ⟨⟨ok, block', s₁⟩, first, run⟩ := Outcome.bind_eq_ret.mp run
  cases ok with
  | false => cases run
  | true =>
    apply (blockInfoWrite_magic first).more
    obtain ⟨⟨_, s₂⟩, flushed, run⟩ := Outcome.bind_eq_ret.mp run
    obtain ⟨⟨ok, more', s₃⟩, rest, run⟩ := Outcome.bind_eq_ret.mp run
    cases run
    cases flushed
    obtain ⟨more, eq⟩ := (emitFlushed_follows env checksum _ recorder_follower rfl).grows _ rest
    exact ⟨[.flush] ++ more, eq.trans (List.append_assoc _ _ _)⟩

/-- Where there are blocks, what is written behind the tree begins with the magic. -/
theorem emitterEmit_magic (reports : env.yaml.Reports) {e e' : Emitter Recorder}
    (state : e.state = .blocks) (going : e.done = false) (some : e.blocks.blocks ≠ [])
    (run : emitterEmit env e = .ret e') (ok : e'.state ≠ .error) :
    BeginsBlock e.stream e'.stream := by
  obtain ⟨file, blocks, _, _, s⟩ := e
  cases state
  cases going
  obtain ⟨block, more, eq⟩ := List.exists_cons_of_ne_nil some
  have whole : ensureBlocks blocks = blocks := by
    unfold ensureBlocks
    rw [show blocks.blocks = block :: more from eq]
    exact if_neg (by rw [List.isEmpty_cons, Bool.and_false]; exact Bool.false_ne_true)
  have run : (emitOne env ⟨file, blocks, .blocks, false, s⟩ >>=
      Outcome.loop (emitRound env .end) 7) = .ret e' := by
    rw [← run]
    exact (emitLoop_succ env .end 7 (⟨file, blocks, .blocks, false, s⟩ : Emitter Recorder)).symm
  obtain ⟨e₁, one, rest⟩ := Outcome.bind_eq_ret.mp run
  obtain ⟨r, state, one⟩ := Outcome.bind_eq_ret.mp one
  obtain ⟨r', emitted, state⟩ := Outcome.bind_eq_ret.mp state
  obtain ⟨⟨ok', infos, s'⟩, flushed, emitted⟩ := Outcome.bind_eq_ret.mp emitted
  cases emitted
  cases state
  cases one
  cases ok' with
  | false =>
    have stopped : (Outcome.ret _ : Run (Emitter Recorder)) = .ret e' := rest
    cases stopped
    exact absurd rfl ok
  | true =>
    rw [whole, show blocks.blocks = block :: more from eq] at flushed
    apply (emitFlushed_magic flushed).more
    have follows := emitLoop_follows reports .end 7 recorder_follower
      (e := ⟨file, { ensureBlocks blocks with blocks := infos }, .blockIndex, false, s'⟩)
      ⟨rfl, rfl, rfl, rfl, rfl⟩ (by decide : 2 < 7)
    exact follows.grows _ rest

end Magic

/-! ## Text that is UTF-8 -/

/-- What begins a character of more than a byte is followed by a byte of it. -/
def Utf8Leads (bytes : Bytes) : Prop :=
  ∀ (i : Nat) (lead : Byte), bytes[i]? = some lead → 0xc2 ≤ lead →
    ∃ next : Byte, bytes[i + 1]? = some next ∧ 0x80 ≤ next

/-- The library writes UTF-8. -/
def YamlEmitter.Utf8 (yaml : YamlEmitter) : Prop :=
  ∀ text, yaml.tree = some text → text.whole = true → Utf8Leads text.pieces.flatten

theorem Utf8Leads.ascii_append {ascii bytes : Bytes} (low : ∀ byte ∈ ascii, byte < 0xc2)
    (h : Utf8Leads bytes) : Utf8Leads (ascii ++ bytes) := by
  intro i lead at_ high
  by_cases before : i < ascii.length
  · rw [List.getElem?_append_left before] at at_
    exact absurd (low lead (List.mem_of_getElem? at_)) (UInt8.not_lt.mpr high)
  · have behind : ascii.length ≤ i := Nat.le_of_not_lt before
    rw [List.getElem?_append_right behind] at at_
    obtain ⟨next, at_', goes_on⟩ := h _ _ at_ high
    refine ⟨next, ?_, goes_on⟩
    rw [List.getElem?_append_right (Nat.le_succ_of_le behind), Nat.succ_sub behind]
    exact at_'

theorem FrontBytes.utf8 {yaml : YamlEmitter} (utf8 : yaml.Utf8) {bytes : Bytes}
    (front : FrontBytes yaml bytes .blocks) : Utf8Leads bytes := by
  obtain ⟨text, is, rfl⟩ := front
  apply Utf8Leads.ascii_append (by decide +kernel)
  obtain rfl | ⟨whole, tree, done, rfl⟩ := is
  · exact nofun
  · exact utf8 whole tree done

/-- The magic is not in such text. -/
theorem Utf8Leads.no_magic {bytes more rest : Bytes} {n : Nat} (h : Utf8Leads bytes)
    (eq : bytes.drop n ++ more = blockMagic ++ rest) : bytes.length ≤ n := by
  by_contra inside
  have inside : n < bytes.length := Nat.lt_of_not_le inside
  have place {i : Nat} (within : n + i < bytes.length) :
      bytes[n + i]? = (blockMagic ++ rest)[i]? := by
    rw [← eq, List.getElem?_append_left, List.getElem?_drop]
    rw [List.length_drop]
    omega
  obtain ⟨next, at_, goes_on⟩ := h (n + 0) 0xd3 (place inside) (by decide)
  have within : n + 1 < bytes.length := (List.getElem?_eq_some_iff.mp at_).1
  have second : bytes[n + 1]? = some 66 := place within
  cases second.symm.trans at_
  exact absurd goes_on (by decide)

end LibAsdf
