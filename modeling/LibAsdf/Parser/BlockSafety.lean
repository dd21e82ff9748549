import LibAsdf.Parser.Grammar
import LibAsdf.Parser.Safety

/-!
# Turns that stay inside their memory

The handlers of blocks and of the block index, which fault nowhere but in a
vector, and one turn of the parser.

* `AcceptsFirst`, `ReadsInside`: what a state must not meet;
* `SafeParser`: what holds between two turns;
* `parserStep_safe`: one turn.
-/

namespace LibAsdf

open StreamOps ParserStream StreamMeasure LawfulStream StreamBounds BoundedStream

variable {σ φ : Type} [ParserStream σ] [BoundedStream σ] {p q : Parser σ φ}

/-! ## Blocks -/

theorem Vec.at_safe {α : Type} (v : Vec α) (idx : Nat) : Safely (fun _ => True) (v.at idx) := by
  rw [Vec.at]
  cases v.items[idx]? with
  | some a => trivial
  | none => exact rfl

theorem Vec.setAt_safe {α : Type} (v : Vec α) (idx : Nat) (a : α) :
    Safely (fun _ => True) (v.setAt idx a) := by
  rw [Vec.setAt]
  split
  · trivial
  · exact rfl

theorem blockInfoReadFields_safe {s : σ} (sound : Sound s) (headerPos : Int) {outBlock : BlockInfo}
    (large : blockHeaderSize ≤ outBlock.header.headerSize) :
    Safely (fun r => Stays s r.2.2) (blockInfoReadFields headerPos outBlock s) := by
  have pos : 0 < outBlock.header.headerSize := Nat.lt_of_lt_of_le (by decide) large
  refine Outcome.wp_seq ((next_safe s _ sound (.inl pos)).and (next_ends s _ (good_sound s sound)))
    fun r hr => ?_
  obtain ⟨buf, t⟩ := r
  obtain ⟨⟨-, fed⟩, stays, view⟩ := hr
  have failed := stays.trans (stays_setError stays.sound .unexpectedEof)
  cases buf with
  | none => exact failed
  | some v =>
    obtain ⟨held, inside, -⟩ := view v rfl
    dsimp only
    split
    · exact failed
    · rename_i short
      have enough := Nat.le_of_not_lt short
      rw [load_of_le (by omega), Outcome.ret_bind]
      refine Outcome.wp_seq (consume_safe t _ inside (fed_mono t enough (fed v rfl).2))
        fun u hu => ?_
      split
      · exact stays.trans hu.1
      · exact stays.trans hu.1

theorem blockInfoRead_safe {s : σ} (inside : Inside s) (fed : Fed s blockMagic.length)
    (outBlock : BlockInfo) : Safely (fun r => Stays s r.2.2) (blockInfoRead outBlock s) := by
  refine Outcome.wp_seq (consume_safe s _ inside fed) fun t ht => ?_
  have stays : Stays s t := ht.1
  dsimp only
  split
  · exact stays
  · refine Outcome.wp_seq ((next_safe t 2 stays.sound (.inl Nat.two_pos)).and
      (next_ends t 2 (good_sound t stays.sound))) fun r hr => ?_
    obtain ⟨buf, u⟩ := r
    obtain ⟨⟨-, fed⟩, moved, view⟩ := hr
    have stays := stays.trans moved
    have failed : ∀ code, Stays s (setError u code) := fun code =>
      stays.trans (stays_setError stays.sound code)
    cases buf with
    | none => exact failed _
    | some v =>
      obtain ⟨held, inside, -⟩ := view v rfl
      dsimp only
      split
      · exact failed _
      · rename_i short
        have enough := Nat.le_of_not_lt short
        rw [load_of_le (by omega), Outcome.ret_bind]
        split
        · exact failed _
        · rename_i large
          refine Outcome.wp_seq (consume_safe u 2 inside (fed_mono u enough (fed v rfl).2))
            fun w hw => ?_
          have stays := stays.trans hw.1
          split
          · exact stays
          · refine Outcome.wp_mono (blockInfoReadFields_safe stays.sound _ ?_) fun r hr =>
              stays.trans hr
            exact Nat.le_of_not_lt large

theorem validateBlock_safe (sound : Sound p.stream) (idx : Nat) (blockOut : BlockInfo) :
    Safely (fun r => Stays p.stream r.2.2.stream) (validateBlock p idx blockOut) := by
  rw [validateBlock]
  split
  · exact .refl sound
  · refine Outcome.wp_seq (Vec.at_safe _ _) fun offset _ => ?_
    refine Outcome.wp_seq (trySeek_safe sound (.inr Whence.noConfusion)) fun r hr => ?_
    obtain ⟨ok, q⟩ := r
    obtain ⟨s, rfl, stays, inside⟩ := hr
    cases ok with
    | false => exact stays
    | true =>
      refine Outcome.wp_seq (streamPeek_safe stays.sound (.inl (by decide))) fun r hr => ?_
      obtain ⟨buf, t⟩ := r
      obtain ⟨moved, view⟩ := hr
      have stays := stays.trans moved
      refine Outcome.wp_seq ((isBlockMagic_safe fun w eq => (view w eq).1).and
        (isBlockMagic_ends buf)) fun magic hm => ?_
      cases magic with
      | false => exact stays
      | true =>
        obtain ⟨v, rfl, long⟩ := hm.1 rfl
        obtain ⟨-, inside, -, fed⟩ := view v rfl
        exact Outcome.wp_seq (blockInfoRead_safe inside (fed_mono t long fed) blockOut)
          fun r hr => stays.trans hr

theorem blockFromIndex_safe (sound : Sound p.stream) (blockIdx : Nat) :
    Safely (fun r => Stays p.stream r.2.stream) (blockFromIndex p blockIdx) := by
  rw [blockFromIndex]
  split
  · exact .refl sound
  · refine Outcome.wp_seq (Vec.at_safe _ _) fun info _ => ?_
    split
    · split
      · exact .refl sound
      · refine Outcome.wp_seq (trySeek_safe sound (.inr Whence.noConfusion)) fun r hr => ?_
        obtain ⟨s, eq, stays, -⟩ := hr
        simp only [eq]
        exact stays
    · refine Outcome.wp_seq (validateBlock_safe sound blockIdx info) fun r hr => ?_
      exact Outcome.wp_seq (Vec.setAt_safe _ _ _) fun _ _ => hr

theorem readNewBlock_safe (inside : Inside p.stream) (fed : Fed p.stream blockMagic.length)
    (env : Env φ) (info : BlockInfo) :
    Safely (fun r => Stays p.stream r.2.2.stream) (readNewBlock env p info) := by
  refine Outcome.wp_seq (blockInfoRead_safe inside fed info) fun r hr => ?_
  obtain ⟨ok, info, s⟩ := r
  cases ok with
  | true => exact hr
  | false => exact hr

theorem parseNewBlock_safe (inside : Inside p.stream) (env : Env φ) :
    Safely (fun r => Stays p.stream r.2.stream) (parseNewBlock env p) := by
  refine Outcome.wp_seq (streamPeek_safe (sound_inside _ inside) (.inl (by decide))) fun r hr => ?_
  obtain ⟨buf, t⟩ := r
  obtain ⟨stays, view⟩ := hr
  have here : Safely (fun r => Stays t r.2.2.stream)
      (readBlockHere env { p with stream := t } buf) := by
    refine Outcome.wp_seq ((isBlockMagic_safe fun w eq => (view w eq).1).and
      (isBlockMagic_ends buf)) fun magic hm => ?_
    cases magic with
    | false => exact .refl stays.sound
    | true =>
      obtain ⟨v, rfl, long⟩ := hm.1 rfl
      obtain ⟨-, inside, -, fed⟩ := view v rfl
      exact readNewBlock_safe inside (fed_mono t long fed) env _
  refine Outcome.wp_seq here fun r hr => ?_
  obtain ⟨ok, info, q⟩ := r
  have stays : Stays p.stream q.stream := stays.trans hr
  cases ok with
  | true => exact stays
  | false =>
    dsimp only
    rw [if_neg (by decide)]
    have scanned : Safely (fun r => Stays q.stream r.2.stream ∧
        (r.1 = true → Fed r.2.stream blockMagic.length)) (scanForBlock q) := by
      refine Outcome.wp_seq (scanTokens_safe (stays.inside inside) (List.cons_ne_nil _ _))
        fun r hr => ?_
      obtain ⟨token, q'⟩ := r
      obtain ⟨s, rfl, moved, found⟩ := hr
      cases token with
      | none => exact ⟨moved, nofun⟩
      | some token =>
        obtain ⟨member, fed⟩ := found token rfl
        cases List.mem_singleton.mp member
        exact ⟨moved, fun _ => fed⟩
    refine Outcome.wp_seq scanned fun r hr => ?_
    obtain ⟨found, q'⟩ := r
    obtain ⟨moved, fed⟩ := hr
    have stays := stays.trans moved
    cases found with
    | false => exact stays
    | true =>
      refine Outcome.wp_seq (readNewBlock_safe (stays.inside inside) (fed rfl) env info)
        fun r hr => ?_
      exact stays.trans hr

theorem parseBlockInfo_safe (inside : Inside p.stream) (env : Env φ) :
    Safely (fun r => Stays p.stream r.2.stream) (parseBlockInfo env p) := by
  rw [parseBlockInfo]
  dsimp only
  split
  · refine Outcome.wp_seq (blockFromIndex_safe (sound_inside _ inside) _) fun r hr => ?_
    obtain ⟨found, q⟩ := r
    cases found with
    | some info => exact hr
    | none =>
      refine Outcome.wp_seq (Vec.setAt_safe _ _ _) fun index _ => ?_
      exact Outcome.wp_mono (parseNewBlock_safe (p := { q with block := { q.block with
        index := index } }) (hr.inside inside) env) fun _ further => hr.trans further
  · exact parseNewBlock_safe inside env

theorem skipBlock_safe (sound : Sound p.stream) (info : BlockInfo) :
    Safely (fun r => Stays p.stream r.2.stream) (skipBlock p info) := by
  rw [skipBlock]
  split
  · exact stays_setError sound _
  · have sought : Safely (fun r => Stays p.stream r.2) (seekPastBlock p.stream info) := by
      rw [seekPastBlock]
      split
      · exact Outcome.wp_mono (streamSeek_safe sound (.inl (Int.le_refl 0))) fun _ hr => hr.1
      · exact Outcome.wp_mono (streamSeek_safe sound (.inl (Int.natCast_nonneg _))) fun _ hr => hr.1
    refine Outcome.wp_seq sought fun r hr => ?_
    dsimp only
    split
    · exact hr.trans (stays_setError hr.sound _)
    · exact hr

theorem parseBlock_safe (inside : Inside p.stream) (env : Env φ) :
    Safely (fun r => Stays p.stream r.2.stream) (parseBlock env p) := by
  rw [parseBlock]
  split
  · exact .refl (sound_inside _ inside)
  · refine Outcome.wp_seq (parseBlockInfo_safe inside env) fun r hr => ?_
    obtain ⟨found, q⟩ := r
    cases found with
    | none => exact hr
    | some info =>
      have counted : Safely (fun q' => q'.stream = q.stream) (countBlock env q info) := by
        rw [countBlock]
        dsimp only
        split
        · exact Outcome.wp_seq (Vec.setAt_safe _ _ _) fun _ _ => rfl
        · exact rfl
      refine Outcome.wp_seq counted fun q' same => ?_
      have sound : Sound q'.stream := same ▸ hr.sound
      exact Outcome.wp_mono (skipBlock_safe sound info) fun _ further =>
        hr.trans (same ▸ further)

/-! ## The block index -/

/-- A header is left in view where it is found at the first look. -/
theorem parseFindBlockIndexRound_safe (inside : Inside p.stream) :
    Safely (Outcome.Round (fun _ => True) (fun r => Stays p.stream r.2.stream ∧
      ∀ e, r.1 = .event e → Ready r.2.stream)) (parseFindBlockIndexRound (false, p)) := by
  refine Outcome.wp_seq (scanTokens_safe inside (List.cons_ne_nil _ _)) fun r hr => ?_
  obtain ⟨token, q⟩ := r
  obtain ⟨s, rfl, stays, -⟩ := hr
  cases token with
  | none => exact ⟨stays, nofun⟩
  | some token =>
    refine Outcome.wp_seq (streamPeek_safe stays.sound (.inl (Nat.succ_pos _))) fun r hr => ?_
    obtain ⟨buf, t⟩ := r
    obtain ⟨moved, view⟩ := hr
    have stays := stays.trans moved
    cases buf with
    | none => exact ⟨stays, nofun⟩
    | some v =>
      obtain ⟨held, -, pos, fed⟩ := view v rfl
      dsimp only
      split
      · exact ⟨stays, nofun⟩
      · refine Outcome.wp_seq (endsWithNewline_safe held _) fun b _ => ?_
        cases b with
        | true => exact ⟨stays, fun _ _ => ready_fed t (fed_mono t pos fed)⟩
        | false => trivial

theorem parseFindBlockIndex_safe (sound : Sound p.stream) (seekable : p.isSeekable) (env : Env φ)
    (fileSize : Int) (accepts : ¬ FindRejects env p fileSize) (fuel : Nat) :
    Safely (fun r => Stays p.stream r.2.stream ∧ ∀ e, r.1 = .event e → Ready r.2.stream)
      (parseFindBlockIndex env fuel p fileSize) := by
  rw [parseFindBlockIndex]
  split
  · exact ⟨.refl sound, by rintro e ⟨⟩⟩
  split
  · exact ⟨stays_setError sound _, by rintro e ⟨⟩⟩
  refine Outcome.wp_seq (Outcome.wp_self (trySeek_safe sound (.inr Whence.noConfusion)))
    fun r hr => ?_
  obtain ⟨ok, q⟩ := r
  obtain ⟨⟨s, rfl, stays, inside⟩, sought⟩ := hr
  cases ok with
  | false => exact ⟨stays, by rintro e ⟨⟩⟩
  | true =>
    refine Outcome.wp_mono (Outcome.wp_loop_once (fun q' again => accepts ⟨_, q', sought, again⟩)
      (parseFindBlockIndexRound_safe (inside seekable rfl)) fuel) fun r hr => ?_
    exact ⟨stays.trans hr.1, hr.2⟩

theorem validateBlockIndex_safe (sound : Sound p.stream) (seekable : p.isSeekable) (env : Env φ) :
    Safely (fun r => Stays p.stream r.2.stream) (validateBlockIndex env p) := by
  rw [validateBlockIndex, assert, if_pos seekable, Outcome.ret_bind]
  dsimp only
  split
  · exact .refl sound
  split
  · exact .refl sound
  refine Outcome.wp_seq (validateBlock_safe sound 0 _) fun r hr => ?_
  obtain ⟨ok, first, q⟩ := r
  have stays : Stays p.stream q.stream := hr
  cases ok with
  | false => exact stays
  | true =>
    have last : Safely (fun r => Stays q.stream r.2.2.stream)
        (validateLastBlock q p.block.index.size) := by
      rw [validateLastBlock]
      split
      · exact validateBlock_safe stays.sound _ _
      · exact .refl stays.sound
    refine Outcome.wp_seq last fun r hr => ?_
    obtain ⟨ok, last, q'⟩ := r
    cases ok with
    | false => exact stays.trans hr
    | true => exact stays.trans hr

/-- The document reaches to the end of the content, which is in the buffer then. -/
theorem parseBlockIndexDocument_safe (sound : Sound p.stream) (ready : Ready p.stream)
    (seekable : p.isSeekable) (env : Env φ) :
    Safely (fun r => Stays p.stream r.2.stream)
      (parseBlockIndexDocument env (bound p.stream) p) := by
  have good : Good p.stream := good_sound _ sound
  refine Outcome.wp_seq (Outcome.wp_self ((next_safe p.stream _ sound (.inr ready)).and
    (next_ends p.stream _ good))) fun r hr => ?_
  obtain ⟨buf, s⟩ := r
  obtain ⟨⟨⟨onward, -⟩, stays, -⟩, read⟩ := hr
  cases buf with
  | none => exact stays.trans (stays_setError stays.sound _)
  | some v =>
    have room := next_rest p.stream v s sound read
    dsimp only
    rw [buildBlockIndex, load_of_le (by omega), Outcome.ret_bind, Outcome.pure_eq, Outcome.ret_bind]
    split
    · exact stays
    · split
      · exact stays
      · refine Outcome.wp_seq (validateBlockIndex_safe (p := { p with stream := s, block := _ })
          stays.sound (onward.seekable.trans seekable) env) fun r hr => ?_
        obtain ⟨ok, q⟩ := r
        cases ok with
        | false => exact stays.trans hr
        | true => exact stays.trans hr

theorem parseFoundBlockIndex_safe (sound : Sound p.stream) (seekable : p.isSeekable) (env : Env φ)
    (accepts : ¬ FindRejects env p (bound p.stream)) (fuel : Nat) :
    Safely (fun r => Stays p.stream r.2.stream)
      (parseFoundBlockIndex env fuel p (bound p.stream)) := by
  have good : Good p.stream := good_sound _ sound
  refine Outcome.wp_seq ((parseFindBlockIndex_safe sound seekable env _ accepts fuel).and
    (parseFindBlockIndex_spec good env fuel _)) fun r hr => ?_
  obtain ⟨res, q⟩ := r
  obtain ⟨⟨s, rfl, keeps⟩, stays, ready⟩ := hr
  cases res with
  | event e =>
    have document := parseBlockIndexDocument_safe (p := { p with stream := s }) stays.sound
      (ready e rfl) (keeps.seekable.trans seekable) env
    rw [show bound p.stream = bound s from keeps.bound.symm]
    exact Outcome.wp_mono document fun _ hr => stays.trans hr
  | error => exact stays
  | «continue» => exact stays

/-- Behind a seek to the end, the position is the size of the content. -/
theorem trySeek_toEnd (sound : Sound p.stream) (seekable : p.isSeekable) :
    Safely (fun r => r.1 = true → StreamOps.tell r.2.stream = bound r.2.stream)
      (p.trySeek 0 .end) := by
  have sought : Safely (fun r => r.1 = true → StreamOps.tell r.2 = bound r.2)
      (streamSeek p.stream 0 .end) := by
    have can : (base p.stream).isSeekable = true := seekable
    simp only [streamSeek, can, Bool.not_true, Bool.false_and, if_true]
    exact seek_end p.stream sound
  refine Outcome.wp_seq sought fun r hr => ?_
  obtain ⟨ok, s⟩ := r
  cases ok with
  | true => exact hr
  | false => exact fun yes => absurd yes Bool.false_ne_true

theorem parseBlockIndex_safe (idle : Idle p.stream) (env : Env φ) (accepts : ¬ IndexRejects env p)
    (fuel : Nat) : Safely (fun r => Idle r.2.stream) (parseBlockIndex env fuel p) := by
  rw [parseBlockIndex]
  split
  · exact idle
  rename_i can
  have seekable : p.isSeekable := by simpa using can
  have good : Good p.stream := good_sound _ idle.1
  refine Outcome.wp_seq (Outcome.wp_self (((trySeek_safe idle.1 (.inr Whence.noConfusion)).and
    (trySeek_ends good 0 .end)).and (trySeek_toEnd idle.1 seekable))) fun r hr => ?_
  obtain ⟨ok, q⟩ := r
  obtain ⟨⟨told, ⟨s, eq, keeps⟩, ⟨s', rfl, stays, -⟩⟩, sought⟩ := hr
  cases eq
  have idle : Idle s := idle.stays stays
  cases ok with
  | false => exact idle
  | true =>
    have size : tell s = bound s := told rfl
    have still : Parser.isSeekable { p with stream := s } := keeps.keeps.seekable.trans seekable
    dsimp only
    rw [if_neg (by decide), size]
    refine Outcome.wp_seq (parseFoundBlockIndex_safe (p := { p with stream := s }) stays.sound still
      env (fun rejects => accepts ⟨_, sought, size ▸ rejects⟩) fuel) fun r hr => ?_
    obtain ⟨res, q⟩ := r
    have idle : Idle q.stream := idle.stays hr
    refine Outcome.wp_seq (trySeek_safe idle.1 (.inr Whence.noConfusion)) fun r hr => ?_
    obtain ⟨ok, q'⟩ := r
    obtain ⟨t, rfl, moved, -⟩ := hr
    cases ok with
    | false => exact idle.stays moved
    | true => exact idle.stays moved

/-! ## One turn -/

/-- No scanning loop rejects its first match. -/
structure AcceptsFirst (env : Env φ) (p : Parser σ φ) : Prop where
  treeOrBlock : p.state = .treeOrBlock → ¬ TreeOrBlockRejects p
  tree : p.state = .tree → ¬ TreeRejects p
  blockIndex : p.state = .blockIndex → ¬ IndexRejects env p

/-- A version line is there to be read, and is not cut off. -/
structure ReadsVersion (expected : Bytes) (p : Parser σ φ) : Prop where
  inside : Inside p.stream
  ready : Ready p.stream
  whole : ¬ VersionCut expected p

/-- Nothing that comes next is read past its memory, and no assertion fails. -/
structure ReadsInside (p : Parser σ φ) : Prop where
  asdfVersion : p.state = .asdfVersion → ReadsVersion asdfVersionComment p
  standardVersion : p.state = .standardVersion → ReadsVersion asdfStandardComment p
  comment : p.state = .comment →
    ∀ q, Outcome.Turns parseCommentRound p q → ¬ CommentOpen q
  treeOrBlock : p.state = .treeOrBlock → Ready p.stream ∧ ¬ TreeStartCut p
  tree : p.state = .tree → p.emitYamlEvents = true → ReadsYaml p

/-- The states between the tree's start and the last block. -/
def ParserState.Late (state : ParserState) : Prop :=
  state = .tree ∨ state = .yaml ∨ state = .padding ∨ state = .block

/-- What holds between two turns. -/
structure SafeParser (p : Parser σ φ) : Prop where
  idle : Idle p.stream
  inside : p.state.Late → Inside p.stream
  yaml : p.state = .yaml → YamlSet p

/-- What a turn leaves that faults nowhere but in a vector. -/
def SafeNext : Parser σ φ ⊕ (Option Event × Parser σ φ) → Prop
  | .inl q => SafeParser q
  | .inr (_, q) => Closed q ∨ SafeParser q

theorem safe_of_handler {Q : ParseResult × Parser σ φ → Prop} {x : Run (ParseResult × Parser σ φ)}
    (hx : Safely Q x) (go : ∀ res q, Q (res, q) → res ≠ .error → SafeParser q) :
    Safely SafeNext (x >>= afterHandler) := by
  refine Outcome.wp_seq hx fun r hr => ?_
  obtain ⟨res, q⟩ := r
  cases res with
  | error => exact .inl (.inl rfl)
  | «continue» => exact go _ q hr ParseResult.noConfusion
  | event e => exact .inr (go _ q hr ParseResult.noConfusion)

/-- A parser whose state asks for no more. -/
theorem SafeParser.early (idle : Idle q.stream) (early : ¬ q.state.Late) : SafeParser q :=
  ⟨idle, fun late => absurd late early, fun state => absurd (.inr (.inl state)) early⟩

/-- What is done with a version leaves the stream alone. -/
theorem idle_after_version (h : SafeParser p) {expected : Bytes} (reads : ReadsVersion expected p)
    {after : Option Version × Parser σ φ → Run (ParseResult × Parser σ φ)}
    (same : ∀ version q, ∃ r, after (version, q) = .ret r ∧ r.2.stream = q.stream) :
    Safely (fun r => Idle r.2.stream) (parseVersionComment p expected >>= after) := by
  refine Outcome.wp_seq (parseVersionComment_safe reads.inside reads.ready h.idle.2 reads.whole)
    fun r hr => ?_
  obtain ⟨s, eq, stream⟩ := same r.1 r.2
  have idle : Idle s.2.stream := stream ▸ hr
  rw [eq]
  exact idle

theorem parseAsdfVersion_turn (h : SafeParser p) (reads : ReadsVersion asdfVersionComment p) :
    Safely SafeNext (parseAsdfVersion p >>= afterHandler) := by
  have safe : Safely (fun r => Idle r.2.stream) (parseAsdfVersion p) :=
    idle_after_version h reads fun version q => by cases version <;> exact ⟨_, rfl, rfl⟩
  refine safe_of_handler (safe.and (parseAsdfVersion_spec (good_sound _ h.idle.1))) ?_
  rintro res q ⟨⟨s, onward, eq | ⟨version, eq⟩⟩, idle⟩ other <;> cases eq
  · exact absurd rfl other
  · exact .early idle (by simp [ParserState.Late])

theorem parseStandardVersion_turn (h : SafeParser p)
    (reads : ReadsVersion asdfStandardComment p) :
    Safely SafeNext (parseStandardVersion p >>= afterHandler) := by
  have safe : Safely (fun r => Idle r.2.stream) (parseStandardVersion p) :=
    idle_after_version h reads fun version q => by cases version <;> exact ⟨_, rfl, rfl⟩
  refine safe_of_handler (safe.and (parseStandardVersion_spec (good_sound _ h.idle.1))) ?_
  rintro res q ⟨⟨s, onward, eq | ⟨version, eq⟩⟩, idle⟩ other <;> cases eq
  · exact absurd rfl other
  · exact .early idle (by simp [ParserState.Late])

theorem parseComment_turn (h : SafeParser p) (state : p.state = .comment)
    (whole : ∀ q, Outcome.Turns parseCommentRound p q → ¬ CommentOpen q) (fuel : Nat) :
    Safely SafeNext (parseComment fuel p >>= afterHandler) := by
  refine safe_of_handler ((parseComment_safe h.idle whole fuel).and
    (parseComment_spec (good_sound _ h.idle.1) fuel)) ?_
  rintro res q ⟨⟨s, onward, eq | ⟨text, eq, -⟩ | eq⟩, idle⟩ other <;> cases eq
  · exact absurd rfl other
  · exact .early idle (by simp [ParserState.Late, state])
  · exact .early idle (by simp [ParserState.Late])

theorem parseBlockIndex_turn (h : SafeParser p) {env : Env φ} (accepts : ¬ IndexRejects env p)
    (fuel : Nat) : Safely SafeNext (parseBlockIndex env fuel p >>= afterHandler) := by
  refine safe_of_handler ((parseBlockIndex_safe h.idle env accepts fuel).and
    (parseBlockIndex_spec (good_sound _ h.idle.1) env fuel)) ?_
  rintro res q ⟨⟨eq, -⟩ | ⟨s, b, keeps, read, seekable, eq | eq⟩, idle⟩ other <;> cases eq
  · exact .early idle (by simp [ParserState.Late])
  · exact absurd rfl other
  · exact .early idle (by simp [ParserState.Late])

theorem parseTreeOrBlock_turn (h : SafeParser p) (accepts : ¬ TreeOrBlockRejects p)
    (ready : Ready p.stream) (whole : ¬ TreeStartCut p) (fuel : Nat) :
    Safely SafeNext (parseTreeOrBlock fuel p >>= afterHandler) := by
  refine safe_of_handler ((parseTreeOrBlock_safe h.idle ready whole accepts fuel).and
    (parseTreeOrBlock_spec (good_sound _ h.idle.1) fuel)) ?_
  rintro res q ⟨⟨s, onward, eq | ⟨info, tree, eq⟩ | ⟨tree, eq⟩⟩, idle, inside⟩ _ <;> cases eq
  · exact .early idle (by simp [ParserState.Late])
  · exact ⟨idle, fun _ => inside (by simp), by simp⟩
  · exact ⟨idle, fun _ => inside (by simp), by simp⟩

theorem parseTree_turn (h : SafeParser p) (state : p.state = .tree) (accepts : ¬ TreeRejects p)
    (reads : p.emitYamlEvents = true → ReadsYaml p) (env : Env φ) (fuel : Nat) :
    Safely SafeNext (parseTree env fuel p >>= afterHandler) := by
  refine safe_of_handler (parseTree_safe (h.inside (.inl state)) h.idle.2 accepts reads env fuel) ?_
  intro res q hq other
  obtain ⟨inside, free, set⟩ := hq other
  exact ⟨⟨sound_inside _ inside, free⟩, fun _ => inside, set⟩

theorem parseYaml_turn (h : SafeParser p) (state : p.state = .yaml) (env : Env φ) :
    Safely SafeNext (parseYaml env p >>= afterHandler) := by
  have inside := h.inside (.inr (.inl state))
  refine safe_of_handler ((parseYaml_safe h.idle.1 (h.yaml state) env).and
    (parseYaml_spec (good_sound _ h.idle.1) env)) ?_
  rintro res q ⟨⟨-, info, eq⟩ | ⟨-, y, -, next⟩, stays⟩ other
  · cases eq
    exact ⟨h.idle, fun _ => inside, by simp⟩
  · have set : ∀ {s : σ} {tree : ParserTree} {y' : φ}, Keeps p.stream s →
        YamlSet { p with stream := s, tree := tree, yamlParser := some y' } := fun keeps =>
      ⟨(h.yaml state).1, (h.yaml state).2.1.imp_right keeps.seekable.trans, rfl⟩
    cases next with
    | failed => exact absurd rfl other
    | ended s tree keeps => exact ⟨h.idle.stays stays, fun _ => stays.inside inside, fun _ => set keeps⟩
    | event s tree keeps => exact ⟨h.idle.stays stays, fun _ => stays.inside inside, fun _ => set keeps⟩

theorem parseBlock_turn (h : SafeParser p) (seekable : p.block.hasIndex → p.isSeekable)
    (state : p.state = .block) (env : Env φ) :
    Safely SafeNext (parseBlock env p >>= afterHandler) := by
  have inside := h.inside (.inr (.inr (.inr state)))
  refine safe_of_handler ((parseBlock_safe inside env).and
    (parseBlock_spec (good_sound _ h.idle.1) seekable env)) ?_
  rintro res q ⟨hq, stays⟩ other
  cases hq with
  | full => exact absurd rfl other
  | ended q next index => exact .early (h.idle.stays stays) (by simp [ParserState.Late])
  | block q info found next s b counted keeps less res result =>
    refine ⟨h.idle.stays stays, fun _ => stays.inside inside, fun yaml => ?_⟩
    cases yaml.symm.trans (next.frame.state.trans state)

/-- A turn that reads inside its memory faults nowhere but in a vector, and leaves a parser
that is safe again. -/
theorem parserStep_safe (h : SafeParser p) (seekable : p.block.hasIndex → p.isSeekable)
    {env : Env φ} (accepts : AcceptsFirst env p) (reads : ReadsInside p) (fuel : Nat) :
    Safely SafeNext (parserStep env fuel p) := by
  rw [parserStep]
  split
  · exact parseAsdfVersion_turn h (reads.asdfVersion ‹_›)
  · exact parseStandardVersion_turn h (reads.standardVersion ‹_›)
  · exact parseComment_turn h ‹_› (reads.comment ‹_›) fuel
  · rename_i state
    obtain ⟨ready, whole⟩ := reads.treeOrBlock state
    exact parseTreeOrBlock_turn h (accepts.treeOrBlock state) ready whole fuel
  · exact parseTree_turn h ‹_› (accepts.tree ‹_›) (reads.tree ‹_›) env fuel
  · exact parseYaml_turn h ‹_› env
  · exact parseBlock_turn h seekable ‹_› env
  · rename_i state
    exact ⟨h.idle, fun _ => h.inside (.inr (.inr (.inl state))), by simp⟩
  · exact parseBlockIndex_turn h (accepts.blockIndex ‹_›) fuel
  · rename_i state
    split
    · refine .inr (.early h.idle ?_)
      simp [ParserState.Late, state]
    · exact .inr h
  · rename_i state
    refine .inr (.early h.idle ?_)
    simp [ParserState.Late, state]
  · rename_i state
    refine .early (h.idle.setError _) ?_
    simp [ParserState.Late, state, Parser.setError]

end LibAsdf
